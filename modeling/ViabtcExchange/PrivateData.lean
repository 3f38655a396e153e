import ViabtcExchange.AccessWs

/-!
# Orders and assets are sent to their owner

`AccessWs.Owned` says that whoever is in a list of a user has authenticated as this user, and with
what result. Every step keeps it, whatever the order of the results, and so whatever is sent about a
user goes to a session of the user (`private_to_owner`).
-/

namespace ViabtcExchange

namespace AccessWs

variable {D : Type} {c : DepthSettings D} {w w' : AccessWs D}

/-- The sessions in the lists of a user have authenticated as this user. -/
structure Owned (w : AccessWs D) : Prop where
  orders : ∀ userId ses, w.dictOrder.Mem userId ses → w.info ses = some ⟨true, userId⟩
  assets : ∀ userId ses, w.dictAsset.Mem userId ses → w.info ses = some ⟨true, userId⟩
  results : ∀ userId ses, w.info ses = some ⟨true, userId⟩ → w.granted ses = some userId

/-! ## What each operation does to `privdata` -/

theorem info_of_find {w : AccessWs D} {ses : Ses} {conn : Option (Client (Option CltInfo))}
    (h : w.svr.clients.find ses = conn) : w.info ses = conn.bind Client.privdata := by
  unfold info
  rw [h]

theorem info_connect {ses ses' : Ses} (hsvr : w'.svr = w.svr.addClt ses none) :
    w'.info ses' = if ses' = ses then none else w.info ses' := by
  unfold info
  rw [hsvr, NwSvr.find_addClt]
  split_ifs <;> rfl

theorem info_closed {ses ses' : Ses} (hsvr : w'.svr = w.svr.closeClt ses) :
    w'.info ses' = if ses' = ses then none else w.info ses' := by
  unfold info
  rw [hsvr, NwSvr.find_closeClt]
  split_ifs <;> rfl

theorem info_setPrivdata {ses ses' : Ses} {info : CltInfo}
    (hsvr : w'.svr = w.svr.setPrivdata ses fun _ => some info) (hopen : w.svr.id ses ≠ 0) :
    w'.info ses' = if ses' = ses then some info else w.info ses' := by
  have hfind : w.svr.clients.find ses ≠ none := fun hnone => hopen (NwSvr.id_eq_zero.mpr hnone)
  unfold AccessWs.info
  rw [hsvr, NwSvr.find_setPrivdata]
  split_ifs with hses
  · subst hses
    obtain ⟨conn, hconn⟩ := Option.ne_none_iff_exists'.mp hfind
    rw [hconn]
    rfl
  · rfl

theorem open_of_info {ses : Ses} {info : CltInfo} (h : w.info ses = some info) :
    w.svr.id ses ≠ 0 := by
  intro hclosed
  unfold AccessWs.info at h
  rw [NwSvr.id_eq_zero.mp hclosed] at h
  cases h

/-! ## Steps -/

theorem Owned.of_eq (h : Owned w) (hsvr : w'.svr = w.svr) (horder : w'.dictOrder = w.dictOrder)
    (hasset : w'.dictAsset = w.dictAsset) (hgranted : w'.granted = w.granted) : Owned w' := by
  have hinfo : ∀ ses, w'.info ses = w.info ses := fun ses => by
    unfold AccessWs.info
    rw [hsvr]
  refine ⟨fun userId ses hmem => ?_, fun userId ses hmem => ?_, fun userId ses hmem => ?_⟩
  · rw [hinfo]
    exact h.orders userId ses (horder ▸ hmem)
  · rw [hinfo]
    exact h.assets userId ses (hasset ▸ hmem)
  · rw [hgranted]
    exact h.results userId ses (hinfo ses ▸ hmem)

/-- The lists get no session but `ses`, which is one of the user. -/
theorem Owned.of_mem (h : Owned w) {ses : Ses} {userId : ℕ}
    (hinfo : w.info ses = some ⟨true, userId⟩) (hsvr : w'.svr = w.svr)
    (hgranted : w'.granted = w.granted)
    (horder : ∀ u s, w'.dictOrder.Mem u s → (u = userId ∧ s = ses) ∨ w.dictOrder.Mem u s)
    (hasset : ∀ u s, w'.dictAsset.Mem u s → (u = userId ∧ s = ses) ∨ w.dictAsset.Mem u s) :
    Owned w' := by
  have hsame : ∀ s, w'.info s = w.info s := fun s => by
    unfold AccessWs.info
    rw [hsvr]
  refine ⟨fun u s hmem => ?_, fun u s hmem => ?_, fun u s hmem => ?_⟩
  · rw [hsame]
    rcases horder u s hmem with ⟨rfl, rfl⟩ | hold
    · exact hinfo
    · exact h.orders u s hold
  · rw [hsame]
    rcases hasset u s hmem with ⟨rfl, rfl⟩ | hold
    · exact hinfo
    · exact h.assets u s hold
  · rw [hgranted]
    exact h.results u s (hsame s ▸ hmem)

theorem Owned.handler (h : Owned w) {ses : Ses} {info : CltInfo} (hinfo : w.info ses = some info)
    (params : List Json) (method : WsMethod) : Owned (w.handler c ses info params method) := by
  obtain ⟨auth, userId⟩ := info
  have hsub : ∀ {d : UserSubs} {u : ℕ} {s : Ses},
      (UserSubs.subscribeNames userId ses (d.userUnsubscribe userId ses) params).Mem u s →
        (u = userId ∧ s = ses) ∨ d.Mem u s := by
    intro d u s hmem
    exact (UserSubs.mem_subscribeNames hmem).imp_right fun hold =>
      (UserSubs.mem_userUnsubscribe.mp hold).2
  have hunsub : ∀ {d : UserSubs} {u : ℕ} {s : Ses}, (d.userUnsubscribe userId ses).Mem u s →
      (u = userId ∧ s = ses) ∨ d.Mem u s := fun hmem =>
    Or.inr (UserSubs.mem_userUnsubscribe.mp hmem).2
  cases method with
  | serverAuth =>
    show Owned (w.sendAuthRequest ses params)
    unfold sendAuthRequest
    split
    · split_ifs
      · exact h
      · exact h.of_eq rfl rfl rfl rfl
    · exact h
  | serverSign =>
    show Owned (w.sendSignRequest ses params)
    unfold sendSignRequest
    split
    · split_ifs
      · exact h
      · exact h.of_eq rfl rfl rfl rfl
    · exact h
  | klineSubscribe =>
    show Owned (w.onMethodKlineSubscribe ses params)
    unfold onMethodKlineSubscribe
    split
    · exact h
    · exact h.of_eq rfl rfl rfl rfl
  | orderSubscribe =>
    show Owned (w.onMethodOrderSubscribe ses ⟨auth, userId⟩ params)
    unfold onMethodOrderSubscribe
    split_ifs with hauth
    · obtain rfl : auth = true := hauth
      exact h.of_mem hinfo rfl rfl (fun _ _ hmem => hsub hmem) fun _ _ => Or.inr
    · exact h
  | orderUnsubscribe =>
    show Owned (if auth = true then _ else _)
    split_ifs with hauth
    · subst hauth
      exact h.of_mem hinfo rfl rfl (fun _ _ hmem => hunsub hmem) fun _ _ => Or.inr
    · exact h
  | assetSubscribe =>
    show Owned (w.onMethodAssetSubscribe ses ⟨auth, userId⟩ params)
    unfold onMethodAssetSubscribe
    split_ifs with hauth
    · obtain rfl : auth = true := hauth
      exact h.of_mem hinfo rfl rfl (fun _ _ => Or.inr) fun _ _ hmem => hsub hmem
    · exact h
  | assetUnsubscribe =>
    show Owned (if auth = true then _ else _)
    split_ifs with hauth
    · subst hauth
      exact h.of_mem hinfo rfl rfl (fun _ _ => Or.inr) fun _ _ hmem => hunsub hmem
    · exact h
  | _ => exact h.of_eq rfl rfl rfl rfl

theorem Owned.connect (h : Owned w) {ses : Ses} (hclosed : w.svr.id ses = 0)
    (hsvr : w'.svr = w.svr.addClt ses none) (horder : w'.dictOrder = w.dictOrder)
    (hasset : w'.dictAsset = w.dictAsset)
    (hgranted : w'.granted = Function.update w.granted ses none) : Owned w' := by
  have hnot : ∀ {userId s}, w.info s = some ⟨true, userId⟩ → s ≠ ses := by
    rintro userId s hinfo rfl
    exact open_of_info hinfo hclosed
  have hinfo : ∀ {userId s}, w.info s = some ⟨true, userId⟩ → w'.info s = some ⟨true, userId⟩ := by
    intro userId s hs
    rw [info_connect hsvr, if_neg (hnot hs), hs]
  refine ⟨fun userId s hmem => hinfo (h.orders userId s (horder ▸ hmem)),
    fun userId s hmem => hinfo (h.assets userId s (hasset ▸ hmem)), fun userId s hmem => ?_⟩
  rw [info_connect hsvr] at hmem
  split_ifs at hmem with hs
  rw [hgranted, Function.update_of_ne hs]
  exact h.results userId s hmem

/-- A session that is no websocket yet is in no list. -/
theorem Owned.onUpgrade (h : Owned w) {ses : Ses} (hopen : w.svr.id ses ≠ 0)
    (hnone : w.info ses = none) (hsvr : w'.svr = w.svr.setPrivdata ses fun _ => some ⟨false, 0⟩)
    (horder : w'.dictOrder = w.dictOrder) (hasset : w'.dictAsset = w.dictAsset)
    (hgranted : w'.granted = w.granted) : Owned w' := by
  have hinfo : ∀ {userId s}, w.info s = some ⟨true, userId⟩ → w'.info s = some ⟨true, userId⟩ := by
    intro userId s hs
    rw [info_setPrivdata hsvr hopen, if_neg, hs]
    rintro rfl
    rw [hnone] at hs
    cases hs
  refine ⟨fun userId s hmem => hinfo (h.orders userId s (horder ▸ hmem)),
    fun userId s hmem => hinfo (h.assets userId s (hasset ▸ hmem)), fun userId s hmem => ?_⟩
  rw [info_setPrivdata hsvr hopen] at hmem
  split_ifs at hmem with hs
  · cases hmem
  · rw [hgranted]
    exact h.results userId s hmem

/-- Who leaves a list of its user, if it has one, is in none. -/
theorem not_mem_left {d : UserSubs} {ses : Ses} {info : CltInfo}
    (hown : ∀ userId, d.Mem userId ses → info = ⟨true, userId⟩) (userId : ℕ) :
    ¬(if info.auth then d.userUnsubscribe info.userId ses else d).Mem userId ses := by
  intro hmem
  split_ifs at hmem with hauth
  · obtain ⟨hne, hmem⟩ := UserSubs.mem_userUnsubscribe.mp hmem
    rw [hown userId hmem] at hne
    exact hne ⟨rfl, rfl⟩
  · rw [hown userId hmem] at hauth
    exact hauth rfl

theorem mem_of_mem_left {d : UserSubs} {ses s : Ses} {leave : Bool} {userId u : ℕ}
    (hmem : (if leave then d.userUnsubscribe userId ses else d).Mem u s) : d.Mem u s := by
  split_ifs at hmem
  · exact (UserSubs.mem_userUnsubscribe.mp hmem).2
  · exact hmem

/-- The lists when a session closes. -/
def closedSubs (d : UserSubs) (ses : Ses) : Option CltInfo → UserSubs
  | none => d
  | some info => if info.auth then d.userUnsubscribe info.userId ses else d

/-- A session that closes leaves all lists it is in, and no other leaves any. -/
theorem mem_of_mem_closed {d : UserSubs} {ses s : Ses} {u : ℕ}
    (hown : ∀ u, d.Mem u ses → w.info ses = some ⟨true, u⟩)
    (hmem : (closedSubs d ses (w.info ses)).Mem u s) : s ≠ ses ∧ d.Mem u s := by
  cases hses : w.info ses with
  | none =>
    rw [hses] at hmem
    refine ⟨?_, hmem⟩
    rintro rfl
    exact absurd (hses.symm.trans (hown u hmem)) (Option.some_ne_none _).symm
  | some info =>
    rw [hses] at hmem
    refine ⟨?_, mem_of_mem_left hmem⟩
    rintro rfl
    exact not_mem_left
      (fun userId hold => Option.some.inj (hses.symm.trans (hown userId hold))) u hmem

theorem Owned.closeClt (h : Owned w) (ses : Ses) (found : Bool) : Owned (w.closeClt ses found) := by
  have hsvr : (w.closeClt ses found).svr = w.svr.closeClt ses := by
    unfold AccessWs.closeClt
    cases w.info ses <;> rfl
  have hinfo : ∀ s, (w.closeClt ses found).info s = if s = ses then none else w.info s := fun s =>
    info_closed hsvr
  have horder : (w.closeClt ses found).dictOrder = closedSubs w.dictOrder ses (w.info ses) := by
    unfold AccessWs.closeClt
    cases w.info ses <;> rfl
  have hasset : (w.closeClt ses found).dictAsset = closedSubs w.dictAsset ses (w.info ses) := by
    unfold AccessWs.closeClt
    cases w.info ses <;> rfl
  have hgranted : (w.closeClt ses found).granted = w.granted := by
    unfold AccessWs.closeClt
    cases w.info ses <;> rfl
  refine ⟨fun u s hmem => ?_, fun u s hmem => ?_, fun u s hmem => ?_⟩
  · rw [horder] at hmem
    obtain ⟨hne, hold⟩ := mem_of_mem_closed (fun u => h.orders u ses) hmem
    rw [hinfo, if_neg hne]
    exact h.orders u s hold
  · rw [hasset] at hmem
    obtain ⟨hne, hold⟩ := mem_of_mem_closed (fun u => h.assets u ses) hmem
    rw [hinfo, if_neg hne]
    exact h.assets u s hold
  · rw [hinfo] at hmem
    split_ifs at hmem
    rw [hgranted]
    exact h.results u s hmem

/-- A result of another user takes the session out of the lists of the user before. -/
theorem Owned.onResult (h : Owned w) (state : AuthState) (result : Option Json) :
    Owned (w.onResult state result) := by
  unfold AccessWs.onResult
  split
  · rename_i userId info huser hses
    split_ifs with hid
    · have hopen := open_of_info hses
      dsimp only
      have hinfo : ∀ s, AccessWs.info
          { w with
            svr := w.svr.setPrivdata state.ses fun _ => some ⟨true, userId⟩
            dictOrder := if info.auth && decide (info.userId ≠ userId) then
              w.dictOrder.orderUnsubscribe info.userId state.ses else w.dictOrder
            dictAsset := if info.auth && decide (info.userId ≠ userId) then
              w.dictAsset.assetUnsubscribe info.userId state.ses else w.dictAsset
            granted := Function.update w.granted state.ses (some userId) } s =
          if s = state.ses then some ⟨true, userId⟩ else w.info s := fun s =>
        info_setPrivdata rfl hopen
      -- A session that stays in a list is one of the user before, who is the same.
      have hsame : ∀ {d : UserSubs} {u : ℕ}, (∀ u, d.Mem u state.ses → info = ⟨true, u⟩) →
          (if info.auth && decide (info.userId ≠ userId) then d.userUnsubscribe
            info.userId state.ses else d).Mem u state.ses → u = userId := by
        intro d u hown hmem
        have hinfo := hown u (mem_of_mem_left hmem)
        subst hinfo
        by_contra hne
        rw [if_pos (by simpa using hne)] at hmem
        exact (UserSubs.mem_userUnsubscribe.mp hmem).1 ⟨rfl, rfl⟩
      have hinj : ∀ {u}, w.info state.ses = some ⟨true, u⟩ → info = ⟨true, u⟩ := fun hu =>
        Option.some.inj (hses.symm.trans hu)
      refine ⟨fun u s hmem => ?_, fun u s hmem => ?_, fun u s hmem => ?_⟩
      · rw [hinfo]
        split_ifs with hs
        · subst hs
          rw [hsame (fun u hu => hinj (h.orders u _ hu)) hmem]
        · exact h.orders u s (mem_of_mem_left hmem)
      · rw [hinfo]
        split_ifs with hs
        · subst hs
          rw [hsame (fun u hu => hinj (h.assets u _ hu)) hmem]
        · exact h.assets u s (mem_of_mem_left hmem)
      · rw [hinfo] at hmem
        dsimp only
        split_ifs at hmem with hs
        · rw [hs, Function.update_self]
          exact congrArg some (congrArg CltInfo.userId (Option.some.inj hmem))
        · rw [Function.update_of_ne hs]
          exact h.results u s hmem
    · exact h
  · exact h

/-! ## What is sent -/

/-- Whoever is sent something about a user is in a list of this user. -/
def SentTo (w w' : AccessWs D) : Prop :=
  ∀ p ∈ w'.sent, w.dictOrder.Mem p.2 p.1 ∨ w.dictAsset.Mem p.2 p.1

theorem mem_listeners {d : UserSubs} {userId : ℕ} {name : String} {p : Ses × ℕ}
    (hp : p ∈ listeners d userId name) : d.Mem p.2 p.1 := by
  obtain ⟨unit, hunit, rfl⟩ := List.mem_map.mp hp
  have hmem := (List.mem_filter.mp hunit).1
  cases hfind : d.find userId with
  | none =>
    rw [hfind] at hmem
    exact absurd hmem List.not_mem_nil
  | some list =>
    rw [hfind] at hmem
    exact ⟨list, hfind, unit.2, hmem⟩

/-- Events of the engine change nothing but what is asked for and sent. -/
structure Quiet (w w' : AccessWs D) : Prop where
  svr : w'.svr = w.svr
  orders : w'.dictOrder = w.dictOrder
  assets : w'.dictAsset = w.dictAsset
  granted : w'.granted = w.granted
  sent : SentTo w w'

theorem quiet_assetOnUpdate (w : AccessWs D) (userId : ℕ) (asset : String) :
    (w.assetOnUpdate userId asset).svr = w.svr ∧
    (w.assetOnUpdate userId asset).dictOrder = w.dictOrder ∧
    (w.assetOnUpdate userId asset).dictAsset = w.dictAsset ∧
    (w.assetOnUpdate userId asset).granted = w.granted ∧
    (w.assetOnUpdate userId asset).sent = w.sent := by
  unfold assetOnUpdate
  split_ifs <;> exact ⟨rfl, rfl, rfl, rfl, rfl⟩

theorem quiet_refl (hsent : w.sent = []) : Quiet w w := by
  refine ⟨rfl, rfl, rfl, rfl, fun p hp => ?_⟩
  rw [hsent] at hp
  exact absurd hp List.not_mem_nil

theorem quiet_balances (hsent : w.sent = []) (msg : Json) :
    Quiet w (w.processBalancesMessage msg) := by
  unfold processBalancesMessage
  split
  · rename_i asset _
    dsimp only
    split_ifs
    · exact quiet_refl hsent
    · obtain ⟨hsvr, horder, hasset, hgranted, hsame⟩ := quiet_assetOnUpdate w
        (toUint32 (Json.integerValue msg.elements[(1 : ℕ)]?)) asset
      refine ⟨hsvr, horder, hasset, hgranted, fun p hp => ?_⟩
      rw [hsame, hsent] at hp
      exact absurd hp List.not_mem_nil
  · exact quiet_refl hsent

theorem quiet_orders (hsent : w.sent = []) (msg : Json) : Quiet w (w.processOrdersMessage msg) := by
  unfold processOrdersMessage
  split
  · rename_i order stock money _ _ _
    dsimp only
    split_ifs
    · exact quiet_refl hsent
    · generalize toUint32 (Json.integerValue (order.get "user")) = userId
      obtain ⟨hsvr₁, horder₁, hasset₁, hgranted₁, hsent₁⟩ := quiet_assetOnUpdate w userId stock
      obtain ⟨hsvr₂, horder₂, hasset₂, hgranted₂, hsent₂⟩ :=
        quiet_assetOnUpdate (w.assetOnUpdate userId stock) userId money
      rw [hsvr₁] at hsvr₂
      rw [horder₁] at horder₂
      rw [hasset₁] at hasset₂
      rw [hgranted₁] at hgranted₂
      rw [hsent₁, hsent] at hsent₂
      unfold orderOnUpdate
      split
      · refine ⟨hsvr₂, horder₂, hasset₂, hgranted₂, fun p hp => ?_⟩
        dsimp only at hp
        rw [hsent₂, List.nil_append, horder₂] at hp
        exact Or.inl (mem_listeners hp)
      · refine ⟨hsvr₂, horder₂, hasset₂, hgranted₂, fun p hp => ?_⟩
        rw [hsent₂] at hp
        exact absurd hp List.not_mem_nil
  · exact quiet_refl hsent

theorem Owned.quiet (h : Owned w) (hquiet : Quiet w w') : Owned w' :=
  h.of_eq hquiet.svr hquiet.orders hquiet.assets hquiet.granted

/-- **Every step keeps the lists, and sends to those in them only.** -/
theorem Owned.step {act : WsAct} (h : Owned w) (hstep : Step c w act w') :
    Owned w' ∧ SentTo w w' := by
  have hsilent : Owned w' → w'.sent = [] → Owned w' ∧ SentTo w w' := by
    intro howned hsent
    refine ⟨howned, fun p hp => ?_⟩
    rw [hsent] at hp
    exact absurd hp List.not_mem_nil
  have hloud : ∀ w₁ : AccessWs D, w₁.svr = w.svr → w₁.dictOrder = w.dictOrder →
      w₁.dictAsset = w.dictAsset → w₁.granted = w.granted → Quiet w₁ w' → Owned w' ∧ SentTo w w' := by
    intro w₁ hsvr horder hasset hgranted hquiet
    refine ⟨(h.of_eq hsvr horder hasset hgranted).quiet hquiet, fun p hp => ?_⟩
    rw [← horder, ← hasset]
    exact hquiet.sent p hp
  cases hstep with
  | connect hclosed => exact hsilent (h.connect hclosed rfl rfl rfl rfl) rfl
  | upgrade hopen hnone => exact hsilent (h.onUpgrade hopen hnone rfl rfl rfl rfl) rfl
  | @request ses info method params hinfo =>
    exact hsilent ((h.handler hinfo params method).of_eq rfl rfl rfl rfl) rfl
  | @close ses found => exact hsilent ((h.closeClt ses found).of_eq rfl rfl rfl rfl) rfl
  | @authResult state result _ =>
    exact hsilent ((h.onResult state result).of_eq rfl rfl rfl rfl) rfl
  | @signResult state result _ =>
    exact hsilent ((h.onResult state result).of_eq rfl rfl rfl rfl) rfl
  | order => exact hloud { w with sent := [] } rfl rfl rfl rfl (quiet_orders rfl _)
  | balance => exact hloud { w with sent := [] } rfl rfl rfl rfl (quiet_balances rfl _)
  | @balanceReply state _ =>
    refine hloud { w with assetStates := w.assetStates.erase state, sent := [] } rfl rfl rfl rfl
      ⟨rfl, rfl, rfl, rfl, fun p hp => Or.inr (mem_listeners hp)⟩
  | _ => exact hsilent (h.of_eq rfl rfl rfl rfl) rfl

theorem owned_start : Owned (start : AccessWs D) := by
  have hnone : ∀ ses, (start : AccessWs D).info ses = none := fun ses => by
    unfold AccessWs.info start NwSvr.create
    rw [Dict.find_empty]
    rfl
  refine ⟨fun userId ses hmem => absurd hmem UserSubs.not_mem_empty,
    fun userId ses hmem => absurd hmem UserSubs.not_mem_empty, fun userId ses hmem => ?_⟩
  rw [hnone] at hmem
  cases hmem

theorem Owned.run {ok : AccessWs D → WsAct → Prop} {w₀ : AccessWs D} (h : Owned w₀)
    (hrun : Reached c ok w₀ w) : Owned w := by
  induction hrun with
  | refl => exact h
  | step _ _ hstep ih => exact (ih.step hstep).1

/-- **Orders and assets are sent to their owner**: to a session that is open, and whose last
successful result was for this user. -/
theorem private_to_owner {ok : AccessWs D → WsAct → Prop} {act : WsAct}
    (hrun : Reached c ok start w) (hstep : Step c w act w') :
    ∀ p ∈ w'.sent, w.svr.id p.1 ≠ 0 ∧ w.granted p.1 = some p.2 := by
  have howned := owned_start.run hrun
  intro p hp
  have hinfo : w.info p.1 = some ⟨true, p.2⟩ := by
    rcases (howned.step hstep).2 p hp with hmem | hmem
    · exact howned.orders p.2 p.1 hmem
    · exact howned.assets p.2 p.1 hmem
  exact ⟨open_of_info hinfo, howned.results p.2 p.1 hinfo⟩

/-! ## An order is sent -/

def exampleWsSettings : DepthSettings ℚ := ⟨exactDecimal, [], []⟩

/-- The state after a list of steps of session 7, which authenticates as user 42 and subscribes. -/
def exampleListening : AccessWs ℚ :=
  let w : AccessWs ℚ := { (start : AccessWs ℚ) with
    svr := NwSvr.create.addClt 7 none
    granted := Function.update (fun _ => none) 7 none }
  let w := w.onUpgrade 7
  let w := w.handler exampleWsSettings 7 ⟨false, 0⟩ [.string "token", .string "web"]
    .serverAuth
  let w := { w.onResult ⟨7, 1⟩ (some exampleResult) with authStates := [] }
  w.handler exampleWsSettings 7 ⟨true, 42⟩ [.string "BTCCNY"] .orderSubscribe
where
  exampleResult : Json :=
    .object [("code", .integer 0), ("data", .object [("user_id", .integer 42)])]

def exampleOrderMessage : Json :=
  .object [("event", .integer 1), ("stock", .string "BTC"), ("money", .string "CNY"),
    ("order", .object [("user", .integer 42), ("market", .string "BTCCNY")])]

theorem exampleListening_reached :
    Reached exampleWsSettings (fun _ _ => True) start exampleListening := by
  have hopen : Reached exampleWsSettings (fun _ _ => True) start _ := .step .refl trivial
    (@Step.connect ℚ exampleWsSettings start 7 (by decide +kernel))
  have hupgraded :=
    Reached.step hopen trivial (@Step.upgrade _ _ _ 7 (by decide +kernel) (by decide +kernel))
  have hasked := Reached.step hupgraded trivial
    (@Step.request _ _ _ 7 ⟨false, 0⟩ .serverAuth [.string "token", .string "web"] (by decide +kernel))
  have hgranted := Reached.step hasked trivial
    (@Step.authResult _ _ _ ⟨7, 1⟩ (some exampleListening.exampleResult) (by decide +kernel))
  exact Reached.step hgranted trivial
    (@Step.request _ _ _ 7 ⟨true, 42⟩ .orderSubscribe [.string "BTCCNY"] (by decide +kernel))

/-- User 42 gets an order. -/
theorem private_to_owner_order :
    let w' := { exampleListening with sent := [] }.processOrdersMessage exampleOrderMessage
    w'.sent = [(7, 42)] ∧
      ∀ p ∈ w'.sent, exampleListening.svr.id p.1 ≠ 0 ∧ exampleListening.granted p.1 = some p.2 :=
  ⟨by decide +kernel, private_to_owner exampleListening_reached .order⟩

end AccessWs

end ViabtcExchange
