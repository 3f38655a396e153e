import ViabtcExchange.PrivateData

/-!
# Sessions that have closed are in no table

`on_close` takes a session out of all tables but that of the states. So `AccessWs.Present`, that who
is in a table is open, is kept by every step but the close of a session that has subscribed to
states, or is not found where it was put (`AccessWs.Careful`).
-/

namespace ViabtcExchange

namespace AccessWs

variable {D : Type} {c : DepthSettings D} {w w' : AccessWs D}

/-- `ses` is in a dictionary of sessions. -/
def InTable (w : AccessWs D) (ses : Ses) : Prop :=
  (∃ key, w.dictKline.Has ses key) ∨ (∃ key, w.dictDepth.Has ses key) ∨
    (∃ market, w.dictPrice.Has ses market) ∨ (∃ market, w.dictState.Has ses market) ∨
    (∃ market, w.dictToday.Has ses market) ∨ ∃ market, w.dictDeals.Has ses market

/-- `ses` is in a dictionary of sessions, or in the list of a user. -/
def Listed (w : AccessWs D) (ses : Ses) : Prop :=
  w.InTable ses ∨ (∃ userId, w.dictOrder.Mem userId ses) ∨ ∃ userId, w.dictAsset.Mem userId ses

/-- A session that closes has not subscribed to states, and the tables find it. -/
def Careful (w : AccessWs D) : WsAct → Prop
  | .close ses found => (∀ market, ¬w.dictState.Has ses market) ∧ (found = true ∨ ¬w.InTable ses)
  | _ => True

/-- Who is in a dictionary of sessions is a websocket. -/
def Present (w : AccessWs D) : Prop := ∀ ses, w.InTable ses → w.info ses ≠ none

/-! ## Steps -/

/-- The tables get no session for which `new` does not hold. -/
structure Gains (new : Ses → Prop) (w w' : AccessWs D) : Prop where
  kline : ∀ ses key, w'.dictKline.Has ses key → new ses ∨ w.dictKline.Has ses key
  depth : ∀ ses key, w'.dictDepth.Has ses key → new ses ∨ w.dictDepth.Has ses key
  price : ∀ ses market, w'.dictPrice.Has ses market → new ses ∨ w.dictPrice.Has ses market
  state : ∀ ses market, w'.dictState.Has ses market → new ses ∨ w.dictState.Has ses market
  today : ∀ ses market, w'.dictToday.Has ses market → new ses ∨ w.dictToday.Has ses market
  deals : ∀ ses market, w'.dictDeals.Has ses market → new ses ∨ w.dictDeals.Has ses market

theorem Gains.inTable {new : Ses → Prop} (h : Gains new w w') {ses : Ses} (hses : w'.InTable ses) :
    new ses ∨ w.InTable ses := by
  rcases hses with ⟨key, hk⟩ | ⟨key, hk⟩ | ⟨market, hm⟩ | ⟨market, hm⟩ | ⟨market, hm⟩ | ⟨market, hm⟩
  · exact (h.kline ses key hk).imp_right fun hk => Or.inl ⟨key, hk⟩
  · exact (h.depth ses key hk).imp_right fun hk => Or.inr (Or.inl ⟨key, hk⟩)
  · exact (h.price ses market hm).imp_right fun hm => Or.inr (Or.inr (Or.inl ⟨market, hm⟩))
  · exact (h.state ses market hm).imp_right fun hm => Or.inr (Or.inr (Or.inr (Or.inl ⟨market, hm⟩)))
  · exact (h.today ses market hm).imp_right fun hm =>
      Or.inr (Or.inr (Or.inr (Or.inr (Or.inl ⟨market, hm⟩))))
  · exact (h.deals ses market hm).imp_right fun hm =>
      Or.inr (Or.inr (Or.inr (Or.inr (Or.inr ⟨market, hm⟩))))

theorem gains_of_eq (new : Ses → Prop) (hkline : w'.dictKline = w.dictKline)
    (hdepth : w'.dictDepth = w.dictDepth) (hprice : w'.dictPrice = w.dictPrice)
    (hstate : w'.dictState = w.dictState) (htoday : w'.dictToday = w.dictToday)
    (hdeals : w'.dictDeals = w.dictDeals) : Gains new w w' :=
  ⟨fun _ _ h => Or.inr (hkline ▸ h), fun _ _ h => Or.inr (hdepth ▸ h), fun _ _ h => Or.inr (hprice ▸ h),
    fun _ _ h => Or.inr (hstate ▸ h), fun _ _ h => Or.inr (htoday ▸ h),
      fun _ _ h => Or.inr (hdeals ▸ h)⟩

theorem gains_refl (new : Ses → Prop) (w : AccessWs D) : Gains new w w :=
  gains_of_eq new rfl rfl rfl rfl rfl rfl

/-- What is a websocket stays one, and who comes into a table is one. -/
theorem Present.gains {new : Ses → Prop} (h : Present w) (hgains : Gains new w w')
    (hinfo : ∀ ses, w'.info ses = none → w.info ses = none)
    (hnew : ∀ ses, new ses → w.info ses ≠ none) :
    Present w' := by
  intro ses hses hnone
  rcases hgains.inTable hses with hses | hses
  · exact hnew ses hses (hinfo ses hnone)
  · exact h ses hses (hinfo ses hnone)

theorem info_of_svr (hsvr : w'.svr = w.svr) (ses : Ses) : w'.info ses = w.info ses := by
  unfold AccessWs.info
  rw [hsvr]

theorem has_unsubscribe_left {S K V : Type} [DecidableEq S] [DecidableEq K] {t : Topics S K V}
    {s s' : S} {k : K} {found : Bool} (h : (if found then t.unsubscribe s else t).Has s' k) :
    t.Has s' k := by
  split_ifs at h
  · exact ((Topics.has_unsubscribe ..).mp h).2
  · exact h

/-- Only the session that asks comes into a table. -/
theorem gains_handler (w : AccessWs D) (ses : Ses) (info : CltInfo) (params : List Json)
    (method : WsMethod) : Gains (· = ses) w (w.handler c ses info params method) := by
  have hrefl := gains_refl (· = ses) w
  have hunsub : ∀ {K V : Type} [DecidableEq K] {t : Topics Ses K V} {s : Ses} {k : K},
      (t.unsubscribe ses).Has s k → s = ses ∨ t.Has s k := fun h =>
    Or.inr ((Topics.has_unsubscribe ..).mp h).2
  have hmarkets : ∀ {t : Topics Ses String Unit} {s : Ses} {market : String},
      (subscribeMarkets () ses (t.unsubscribe ses) params).Has s market → s = ses ∨
        t.Has s market :=
    fun h => (has_subscribeMarkets h).elim Or.inl hunsub
  cases method with
  | serverAuth =>
    show Gains _ w (w.sendAuthRequest ses params)
    unfold sendAuthRequest
    split
    · split_ifs <;> exact ⟨hrefl.kline, hrefl.depth, hrefl.price, hrefl.state, hrefl.today,
        hrefl.deals⟩
    · exact hrefl
  | serverSign =>
    show Gains _ w (w.sendSignRequest ses params)
    unfold sendSignRequest
    split
    · split_ifs <;> exact ⟨hrefl.kline, hrefl.depth, hrefl.price, hrefl.state, hrefl.today,
        hrefl.deals⟩
    · exact hrefl
  | klineSubscribe =>
    show Gains _ w (w.onMethodKlineSubscribe ses params)
    unfold onMethodKlineSubscribe
    split
    · exact hrefl
    · refine { hrefl with kline := fun s key h => ?_ }
      rcases (Topics.has_subscribe ..).mp h with ⟨hs, -⟩ | hold
      · exact Or.inl hs
      · exact hunsub hold
  | klineUnsubscribe => exact { hrefl with kline := fun s key h => hunsub h }
  | depthSubscribe =>
    refine { hrefl with depth := fun s key h => ?_ }
    have h' : Topics.Has (w.dictDepth.onMethodDepthSubscribe c ses params).1 s key := h
    unfold AwDepth.onMethodDepthSubscribe at h'
    split at h'
    · exact Or.inr h'
    · split at h'
      · exact hunsub h'
      · rename_i hsub
        unfold AwDepth.depthSubscribe at hsub
        split_ifs at hsub
        obtain rfl := Option.some.inj hsub
        rcases (Topics.has_subscribe ..).mp h' with ⟨hs, -⟩ | hold
        · exact Or.inl hs
        · exact hunsub hold
  | depthUnsubscribe => exact { hrefl with depth := fun s key h => hunsub h }
  | priceSubscribe => exact { hrefl with price := fun s market h => hmarkets h }
  | priceUnsubscribe => exact { hrefl with price := fun s market h => hunsub h }
  | stateSubscribe => exact { hrefl with state := fun s market h => hmarkets h }
  | stateUnsubscribe => exact { hrefl with state := fun s market h => hunsub h }
  | todaySubscribe => exact { hrefl with today := fun s market h => hmarkets h }
  | todayUnsubscribe => exact { hrefl with today := fun s market h => hunsub h }
  | dealsSubscribe =>
    exact { hrefl with deals := fun s market h => (has_subscribeAll h).elim Or.inl hunsub }
  | dealsUnsubscribe => exact { hrefl with deals := fun s market h => hunsub h }
  | orderSubscribe =>
    show Gains _ w (w.onMethodOrderSubscribe ses info params)
    unfold onMethodOrderSubscribe
    split_ifs <;> exact ⟨hrefl.kline, hrefl.depth, hrefl.price, hrefl.state, hrefl.today,
      hrefl.deals⟩
  | orderUnsubscribe =>
    show Gains _ w (if info.auth = true then _ else _)
    split_ifs <;> exact ⟨hrefl.kline, hrefl.depth, hrefl.price, hrefl.state, hrefl.today,
      hrefl.deals⟩
  | assetSubscribe =>
    show Gains _ w (w.onMethodAssetSubscribe ses info params)
    unfold onMethodAssetSubscribe
    split_ifs <;> exact ⟨hrefl.kline, hrefl.depth, hrefl.price, hrefl.state, hrefl.today,
      hrefl.deals⟩
  | assetUnsubscribe =>
    show Gains _ w (if info.auth = true then _ else _)
    split_ifs <;> exact ⟨hrefl.kline, hrefl.depth, hrefl.price, hrefl.state, hrefl.today,
      hrefl.deals⟩

/-- No method opens or closes a session. -/
theorem svr_handler (w : AccessWs D) (ses : Ses) (info : CltInfo) (params : List Json)
    (method : WsMethod) : (w.handler c ses info params method).svr = w.svr := by
  cases method with
  | serverAuth =>
    show (w.sendAuthRequest ses params).svr = w.svr
    unfold sendAuthRequest
    split
    · split_ifs <;> rfl
    · rfl
  | serverSign =>
    show (w.sendSignRequest ses params).svr = w.svr
    unfold sendSignRequest
    split
    · split_ifs <;> rfl
    · rfl
  | klineSubscribe =>
    show (w.onMethodKlineSubscribe ses params).svr = w.svr
    unfold onMethodKlineSubscribe
    split <;> rfl
  | orderSubscribe =>
    show (w.onMethodOrderSubscribe ses info params).svr = w.svr
    unfold onMethodOrderSubscribe
    split_ifs <;> rfl
  | orderUnsubscribe =>
    show (if info.auth = true then _ else w : AccessWs D).svr = w.svr
    split_ifs <;> rfl
  | assetSubscribe =>
    show (w.onMethodAssetSubscribe ses info params).svr = w.svr
    unfold onMethodAssetSubscribe
    split_ifs <;> rfl
  | assetUnsubscribe =>
    show (if info.auth = true then _ else w : AccessWs D).svr = w.svr
    split_ifs <;> rfl
  | _ => rfl

theorem gains_closeClt (w : AccessWs D) (ses : Ses) (found : Bool) :
    Gains (fun _ => False) w (w.closeClt ses found) := by
  have hrefl := gains_refl (fun _ => False) w
  unfold AccessWs.closeClt
  cases w.info ses with
  | none => exact ⟨hrefl.kline, hrefl.depth, hrefl.price, hrefl.state, hrefl.today, hrefl.deals⟩
  | some info =>
    exact ⟨fun _ _ h => Or.inr (has_unsubscribe_left h), fun _ _ h => Or.inr (has_unsubscribe_left h),
      fun _ _ h => Or.inr (has_unsubscribe_left h), fun _ _ h => Or.inr h,
      fun _ _ h => Or.inr (has_unsubscribe_left h), fun _ _ h => Or.inr (has_unsubscribe_left h)⟩

/-- A session that is closed with care is in no table. -/
theorem Present.not_inTable_closeClt (h : Present w) {ses : Ses} {found : Bool}
    (hcareful : Careful w (.close ses found)) : ¬(w.closeClt ses found).InTable ses := by
  intro hses
  have hold := (gains_closeClt w ses found).inTable hses
  obtain ⟨hstate, hfound | hnot⟩ := hcareful
  · subst hfound
    obtain ⟨info, hinfo⟩ := Option.ne_none_iff_exists'.mp (h ses (hold.resolve_left id))
    unfold AccessWs.closeClt at hses
    rw [hinfo] at hses
    have hleft : ∀ {K V : Type} [DecidableEq K] {t : Topics Ses K V} {k : K},
        ¬(if true then t.unsubscribe ses else t).Has ses k := fun hhas =>
      ((Topics.has_unsubscribe ..).mp hhas).1 rfl
    rcases hses with ⟨key, hk⟩ | ⟨key, hk⟩ | ⟨market, hm⟩ | ⟨market, hm⟩ | ⟨market, hm⟩ |
      ⟨market, hm⟩
    · exact hleft hk
    · exact hleft hk
    · exact hleft hm
    · exact hstate market hm
    · exact hleft hm
    · exact hleft hm
  · exact hnot (hold.resolve_left id)

theorem Present.closeClt (h : Present w) {ses : Ses} {found : Bool}
    (hcareful : Careful w (.close ses found)) : Present (w.closeClt ses found) := by
  have hsvr : (w.closeClt ses found).svr = w.svr.closeClt ses := by
    unfold AccessWs.closeClt
    cases w.info ses <;> rfl
  intro ses' hses'
  have hne : ses' ≠ ses := by
    rintro rfl
    exact h.not_inTable_closeClt hcareful hses'
  rw [info_closed hsvr, if_neg hne]
  exact h ses' (((gains_closeClt w ses found).inTable hses').resolve_left id)

theorem gains_onResult (w : AccessWs D) (state : AuthState) (result : Option Json) :
    Gains (fun _ => False) w (w.onResult state result) := by
  have hrefl := gains_refl (fun _ => False) w
  unfold AccessWs.onResult
  split
  · split_ifs <;> exact ⟨hrefl.kline, hrefl.depth, hrefl.price, hrefl.state, hrefl.today,
      hrefl.deals⟩
  · exact hrefl

theorem info_onResult (w : AccessWs D) (state : AuthState) (result : Option Json) (ses : Ses)
    (hnone : (w.onResult state result).info ses = none) : w.info ses = none := by
  unfold AccessWs.onResult at hnone
  split at hnone
  · rename_i userId info huser hses
    split_ifs at hnone with hid
    · rw [info_setPrivdata rfl (open_of_info hses)] at hnone
      split_ifs at hnone
      exact hnone
    · exact hnone
  · exact hnone

theorem gains_processBalancesMessage (w : AccessWs D) (msg : Json) :
    Gains (fun _ => False) w (w.processBalancesMessage msg) := by
  unfold processBalancesMessage assetOnUpdate
  split
  · dsimp only
    split_ifs <;> exact gains_of_eq _ rfl rfl rfl rfl rfl rfl
  · exact gains_refl _ _

theorem gains_processOrdersMessage (w : AccessWs D) (msg : Json) :
    Gains (fun _ => False) w (w.processOrdersMessage msg) := by
  unfold processOrdersMessage assetOnUpdate orderOnUpdate
  split
  · dsimp only
    split_ifs
    · exact gains_refl _ w
    all_goals split <;> exact gains_of_eq _ rfl rfl rfl rfl rfl rfl
  · exact gains_refl _ _

/-- **Every careful step keeps the tables without closed sessions.** -/
theorem Present.step {act : WsAct} (h : Present w) (hcareful : Careful w act)
    (hstep : Step c w act w') : Present w' := by
  have hfalse : ∀ ses, False → w.info ses ≠ none := fun _ hfalse => hfalse.elim
  have hquiet : ∀ {w'' : AccessWs D}, Gains (fun _ => False) w w'' → w''.svr = w.svr →
      Present w'' :=
    fun hgains hsvr => h.gains hgains (fun ses hnone => info_of_svr hsvr ses ▸ hnone) hfalse
  have hrefl := gains_refl (fun _ => False) w
  cases hstep with
  | @connect ses hclosed =>
    intro ses' hses'
    have hold : w.info ses' ≠ none := h ses' hses'
    have hne : ses' ≠ ses := by
      rintro rfl
      obtain ⟨info, hinfo⟩ := Option.ne_none_iff_exists'.mp hold
      exact open_of_info hinfo hclosed
    rw [info_connect rfl, if_neg hne]
    exact hold
  | @upgrade ses hopen hnone =>
    refine h.gains (gains_of_eq (fun _ => False) rfl rfl rfl rfl rfl rfl)
      (fun ses' hnone' => ?_) hfalse
    rw [info_setPrivdata rfl hopen] at hnone'
    split_ifs at hnone'
    exact hnone'
  | @request ses info method params hinfo =>
    have hgains := gains_handler (c := c) w ses info params method
    refine h.gains ⟨hgains.kline, hgains.depth, hgains.price, hgains.state, hgains.today, hgains.deals⟩
      (fun ses' hnone => ?_) fun ses' hses' => ?_
    · exact info_of_svr (svr_handler w ses info params method) ses' ▸ hnone
    · rw [show ses' = ses from hses', hinfo]
      exact Option.some_ne_none info
  | close => exact h.closeClt hcareful
  | @authResult state result _ =>
    have hgains := gains_onResult w state result
    exact h.gains ⟨hgains.kline, hgains.depth, hgains.price, hgains.state, hgains.today, hgains.deals⟩
      (info_onResult w state result) hfalse
  | @signResult state result _ =>
    have hgains := gains_onResult w state result
    exact h.gains ⟨hgains.kline, hgains.depth, hgains.price, hgains.state, hgains.today, hgains.deals⟩
      (info_onResult w state result) hfalse
  | @order msg =>
    have hgains := gains_processOrdersMessage { w with sent := [] } msg
    exact hquiet ⟨hgains.kline, hgains.depth, hgains.price, hgains.state, hgains.today,
      hgains.deals⟩ (quiet_orders rfl msg).svr
  | @balance msg =>
    have hgains := gains_processBalancesMessage { w with sent := [] } msg
    exact hquiet ⟨hgains.kline, hgains.depth, hgains.price, hgains.state, hgains.today,
      hgains.deals⟩ (quiet_balances rfl msg).svr
  | sweep =>
    refine hquiet ⟨fun _ _ hs => Or.inr ((Topics.has_sweep ..).mp hs),
      fun _ _ hs => Or.inr ((Topics.has_sweep ..).mp hs),
        fun _ _ hs => Or.inr ((Topics.has_sweep ..).mp hs),
      fun _ _ hs => Or.inr ((Topics.has_sweep ..).mp hs),
        fun _ _ hs => Or.inr ((Topics.has_sweep ..).mp hs),
      fun _ _ hs => Or.inr ((Topics.has_sweep ..).mp hs)⟩ rfl
  | klineError =>
    exact hquiet { hrefl with kline := fun _ _ hs => Or.inr ((Topics.has_erase ..).mp hs).2 } rfl
  | depthError =>
    exact hquiet { hrefl with depth := fun _ _ hs => Or.inr ((Topics.has_erase ..).mp hs).2 } rfl
  | priceError =>
    exact hquiet { hrefl with price := fun _ _ hs => Or.inr ((Topics.has_erase ..).mp hs).2 } rfl
  | stateError =>
    exact hquiet { hrefl with state := fun _ _ hs => Or.inr ((Topics.has_erase ..).mp hs).2 } rfl
  | todayError =>
    exact hquiet { hrefl with today := fun _ _ hs => Or.inr ((Topics.has_erase ..).mp hs).2 } rfl
  | dealsError =>
    exact hquiet { hrefl with deals := fun _ _ hs => Or.inr ((Topics.has_erase ..).mp hs).2 } rfl
  | _ => exact hquiet (gains_of_eq _ rfl rfl rfl rfl rfl rfl) rfl

theorem Present.run {w₀ : AccessWs D} (h : Present w₀) (hrun : Reached c Careful w₀ w) :
    Present w := by
  induction hrun with
  | refl => exact h
  | step _ hcareful hstep ih => exact ih.step hcareful hstep

end AccessWs

end ViabtcExchange
