import ViabtcExchange.PrivateData
import ViabtcExchange.Reports
import ViabtcExchange.Load
import ViabtcExchange.Uncrossed

/-!
# The balances a client is shown (`aw_message.c`, `aw_asset.c`, `me_server.c`)

accessws does not get balances in messages. A message about a user makes it ask the engine with
`balance.query`, and the reply goes to the sessions of the user that have subscribed to the asset.
Messages, questions and replies are on their way at any time, and the engine goes on meanwhile:
`BalanceWorld` is all of it. The messages come in any order, two topics of Kafka being read one
independently of the other; the questions and the replies keep theirs, on one connection. No query
times out.

**Theorem (`told_current`).** Once nothing is on its way, a session that has been subscribed all the
time was last told what the user has, or nothing has changed since it was told what it was; and from
wherever a run is, it can come to this without another request.
-/

namespace ViabtcExchange

/-! ## The query -/

section Query

variable {D : Type} (mpd : Mpd D)

/-- Available and frozen, as they are shown: `none` is "0". -/
abbrev BalanceUnit (D : Type) : Type := Option D × Option D

/-- Shown with `prec_show` digits where the asset is not saved with as many. -/
def showBalance (dictAsset : Dict String AssetType) (asset : String) (balance : Option D) :
    Option D :=
  let precSave := assetPrec dictAsset asset
  let precShow := assetPrecShow dictAsset asset
  balance.map fun x => if precSave ≠ precShow then mpd.rescale x (-precShow) else x

/-- `json_object_set_new` of the result. -/
def setUnit (result : List (String × BalanceUnit D)) (asset : String) (unit : BalanceUnit D) :
    List (String × BalanceUnit D) :=
  if result.any fun kv => kv.1 = asset then
    result.map fun kv => if kv.1 = asset then (asset, unit) else kv
  else result ++ [(asset, unit)]

def balanceUnit (l : Ledger D) (userId : ℕ) (asset : String) : BalanceUnit D :=
  (showBalance mpd l.dictAsset asset (balanceGet l.dictBalance userId .available asset),
    showBalance mpd l.dictAsset asset (balanceGet l.dictBalance userId .freeze asset))

/-- The loop over the assets that were asked for: the first that is unknown ends it. -/
def queryAssets (l : Ledger D) (userId : ℕ) :
    List (String × BalanceUnit D) → List Json → Except Refusal (List (String × BalanceUnit D))
  | result, [] => .ok result
  | result, .string asset :: params =>
    if assetExist l.dictAsset asset then
      queryAssets l userId (setUnit result asset (balanceUnit mpd l userId asset)) params
    else .error .invalid
  | _, _ :: _ => .error .invalid

/-- `on_cmd_balance_query`. `assets` are the names of `settings.assets`, all of which are shown when
none is asked for. -/
def Engine.onCmdBalanceQuery (e : Engine D) (assets : List String) (params : List Json) :
    Except Refusal (List (String × BalanceUnit D)) := do
  check (params.length ≠ 0)
  let userId ← integerAt params 0
  check (toUint32 userId ≠ 0)
  if params.length = 1 then
    return assets.foldl (fun result asset =>
      setUnit result asset (balanceUnit mpd e.statics.ledger (toUint32 userId) asset)) []
  else queryAssets mpd e.statics.ledger (toUint32 userId) [] (params.drop 1)

/-- The params of the query `asset_on_update` sends. -/
def AssetState.params (state : AssetState) : List Json :=
  [.integer state.userId, .string state.asset]

theorem Engine.onCmdBalanceQuery_state (e : Engine D) (assets : List String) {state : AssetState}
    (hzero : state.userId ≠ 0) (huser : state.userId < 2 ^ 32)
    (hasset : assetExist e.statics.ledger.dictAsset state.asset = true) :
    e.onCmdBalanceQuery mpd assets state.params =
      .ok [(state.asset, balanceUnit mpd e.statics.ledger state.userId state.asset)] := by
  have huser' : toUint32 (state.userId : ℤ) = state.userId := by
    unfold toUint32
    omega
  simp [Engine.onCmdBalanceQuery, AssetState.params, check, integerAt, huser', hzero, queryAssets,
    hasset, setUnit, Bind.bind, Except.bind]

end Query

/-! ## Messages as they are written -/

/-- `ORDER_EVENT_PUT`, `ORDER_EVENT_UPDATE` and `ORDER_EVENT_FINISH`. -/
def OrderEvent.code : OrderEvent → ℕ
  | .put => 1
  | .update => 2
  | .finish => 3

section Written

variable {D : Type}

/-- What accessws reads of a message of the engine. -/
def Message.WrittenAs : Message D → Json → Prop
  | .balance userId asset _ _, msg =>
    msg.elements[(1 : ℕ)]? = some (.integer userId) ∧ msg.elements[(2 : ℕ)]? = some (.string asset)
  | .order event o stock money, msg =>
    msg.get "event" = some (.integer event.code) ∧ msg.get "stock" = some (.string stock) ∧
      msg.get "money" = some (.string money) ∧ ∃ order, msg.get "order" = some order ∧
        order.get "user" = some (.integer o.userId) ∧ order.get "market" = some (.string o.market)
  | .deal .., _ => False

/-- What accessws does with a message: it reads no deals. -/
def Message.act : Message D → Json → WsAct
  | .balance .., json => .balance json
  | .order .., json => .order json
  | .deal .., json => .balance json

/-- The messages of the topics accessws reads. -/
def Message.heard : Message D → Bool
  | .deal .. => false
  | _ => true

end Written

/-! ## All of it -/

structure BalanceWorld (D : Type) where
  engine : Engine D
  ws : AccessWs D
  /-- Messages of the engine that accessws has not read. -/
  coming : List (Message D)
  /-- Queries on their way to the engine. -/
  asked : List AssetState
  /-- Replies on their way back. -/
  answered : List (AssetState × Except Refusal (List (String × BalanceUnit D)))
  /-- What each session was told last. -/
  told : Ses → AssetState → Option (List (String × BalanceUnit D))

namespace BalanceWorld

variable {D : Type} (mpd : Mpd D) (assets : List String) (c : DepthSettings D)

/-- What accessws does on its own: everything but reading messages and replies. -/
def OwnAct : WsAct → Prop
  | .order _ => False
  | .balance _ => False
  | .balanceReply _ => False
  | .balanceLost _ => False
  | _ => True

/-- The sessions that are sent a reply. -/
def tell (w : BalanceWorld D) (state : AssetState) (result : List (String × BalanceUnit D))
    (sent : List (Ses × ℕ)) : Ses → AssetState → Option (List (String × BalanceUnit D)) :=
  fun ses state' => if state' = state ∧ ses ∈ sent.map Prod.fst then some result else w.told ses state'

inductive Step : BalanceWorld D → BalanceWorld D → Prop
  | request {w : BalanceWorld D} {op : Op D} {e : Engine D} : w.engine.step mpd true op = some e →
      Step w { w with
        engine := e
        coming := w.coming ++ (w.engine.statics.since e.statics).filter Message.heard }
  | read {w : BalanceWorld D} {before after : List (Message D)} {msg : Message D} {json : Json}
      {ws : AccessWs D} : w.coming = before ++ msg :: after → msg.WrittenAs json →
        AccessWs.Step c w.ws (msg.act json) ws →
          Step w { w with
            ws := ws
            coming := before ++ after
            asked := w.asked ++ ws.assetStates.drop w.ws.assetStates.length }
  | answer {w : BalanceWorld D} {state : AssetState} {rest : List AssetState} :
      w.asked = state :: rest →
        Step w { w with
          asked := rest
          answered := w.answered ++ [(state, w.engine.onCmdBalanceQuery mpd assets state.params)] }
  | reply {w : BalanceWorld D} {state : AssetState} {result : List (String × BalanceUnit D)}
      {rest : List (AssetState × Except Refusal (List (String × BalanceUnit D)))} {ws : AccessWs D} :
      w.answered = (state, .ok result) :: rest → AccessWs.Step c w.ws (.balanceReply state) ws →
        Step w { w with ws := ws, answered := rest, told := w.tell state result ws.sent }
  | error {w : BalanceWorld D} {state : AssetState} {refusal : Refusal}
      {rest : List (AssetState × Except Refusal (List (String × BalanceUnit D)))} {ws : AccessWs D} :
      w.answered = (state, .error refusal) :: rest → AccessWs.Step c w.ws (.balanceLost state) ws →
        Step w { w with ws := ws, answered := rest }
  | own {w : BalanceWorld D} {act : WsAct} {ws : AccessWs D} : OwnAct act →
      AccessWs.Step c w.ws act ws → Step w { w with ws := ws }

/-- A run in which a session is subscribed to an asset of a user at every point. -/
inductive Listening (state : AssetState) (ses : Ses) (w₁ : BalanceWorld D) : BalanceWorld D → Prop
  | refl : w₁.ws.dictAsset.HasName state.userId ses state.asset → Listening state ses w₁ w₁
  | step {w w' : BalanceWorld D} : Listening state ses w₁ w → Step mpd assets c w w' →
      w'.ws.dictAsset.HasName state.userId ses state.asset → Listening state ses w₁ w'

/-- Nothing is on its way. -/
structure Settled (w : BalanceWorld D) : Prop where
  coming : w.coming = []
  asked : w.asked = []
  answered : w.answered = []

/-! ## What is on its way -/

variable {mpd assets c} {state : AssetState} {ses : Ses} {w w' w₁ : BalanceWorld D}

/-- The reply to a query now. -/
def current (mpd : Mpd D) (w : BalanceWorld D) (state : AssetState) : List (String × BalanceUnit D) :=
  [(state.asset, balanceUnit mpd w.engine.statics.ledger state.userId state.asset)]

/-- The replies about a balance that are on their way. -/
def replies (w : BalanceWorld D) (state : AssetState) :
    List (AssetState × Except Refusal (List (String × BalanceUnit D))) :=
  w.answered.filter fun reply => reply.1 = state

/-- A session has been told what there is to tell, or it is on its way: as a message, as a query or
as the last reply. -/
inductive Fresh (mpd : Mpd D) (state : AssetState) (ses : Ses) (w₁ w : BalanceWorld D) : Prop
  | message : (∃ msg ∈ w.coming, msg.Concerns state.userId state.asset) → Fresh mpd state ses w₁ w
  | query : state ∈ w.asked → Fresh mpd state ses w₁ w
  | reply : (w.replies state).getLast? = some (state, .ok (w.current mpd state)) →
      Fresh mpd state ses w₁ w
  | told : w.replies state = [] → w.told ses state = some (w.current mpd state) →
      Fresh mpd state ses w₁ w
  | unchanged : w.replies state = [] → w.told ses state = w₁.told ses state →
      w.current mpd state = w₁.current mpd state → Fresh mpd state ses w₁ w

/-- A balance that accessws may ask for. -/
structure Known (state : AssetState) (w : BalanceWorld D) : Prop where
  pos : state.userId ≠ 0
  user : state.userId < 2 ^ 32
  asset : assetExist w.engine.statics.ledger.dictAsset state.asset = true

theorem heard_of_concerns {u : ℕ} {a : String} {msg : Message D} (h : msg.Concerns u a) :
    msg.heard = true := by
  cases msg with
  | deal => exact h.elim
  | _ => rfl

/-- Nothing of it is lost where the rest stays. -/
theorem Fresh.mono (h : Fresh mpd state ses w₁ w) (hcoming : w.coming ⊆ w'.coming)
    (hasked : w.asked ⊆ w'.asked) (hanswered : w'.answered = w.answered)
    (htold : w'.told ses state = w.told ses state) (hcurrent : w'.current mpd state = w.current mpd state) :
    Fresh mpd state ses w₁ w' := by
  have hreplies : w'.replies state = w.replies state := by rw [replies, hanswered]; rfl
  cases h with
  | message h => exact .message (h.imp fun _ h => ⟨hcoming h.1, h.2⟩)
  | query h => exact .query (hasked h)
  | reply h => exact .reply (by rw [hreplies, hcurrent, h])
  | told h h' => exact .told (hreplies.trans h) (by rw [htold, hcurrent, h'])
  | unchanged h h' h'' => exact .unchanged (hreplies.trans h) (htold.trans h') (hcurrent.trans h'')

theorem fresh_request {op : Op D} {e : Engine D} (h : Fresh mpd state ses w₁ w)
    (hstep : w.engine.step mpd true op = some e) :
    Fresh mpd state ses w₁ { w with
      engine := e
      coming := w.coming ++ (w.engine.statics.since e.statics).filter Message.heard } := by
  have hasset : e.statics.ledger.dictAsset = w.engine.statics.ledger.dictAsset :=
    (Engine.step_fixed hstep).1
  by_cases hsame : e.statics.ledger.balances state.userId state.asset =
      w.engine.statics.ledger.balances state.userId state.asset
  · refine h.mono (List.subset_append_left _ _) (List.Subset.refl _) rfl rfl ?_
    have havailable := congrArg Prod.fst hsame
    have hfreeze := congrArg Prod.snd hsame
    unfold Ledger.balances at havailable hfreeze
    unfold current balanceUnit
    dsimp only at havailable hfreeze ⊢
    rw [hasset, havailable, hfreeze]
  · obtain ⟨msg, hmsg, hconcerns⟩ := (Engine.step_reported hstep).2 _ _ hsame
    exact .message ⟨msg, List.mem_append_right _
      (List.mem_filter.mpr ⟨hmsg, heard_of_concerns hconcerns⟩), hconcerns⟩

/-! ### Reading a message -/

theorem listeners_ne_nil {d : UserSubs} (h : d.HasName state.userId ses state.asset) :
    AccessWs.listeners d state.userId state.asset ≠ [] := by
  intro hnil
  have hmem : (ses, state.userId) ∈ AccessWs.listeners d state.userId state.asset :=
    List.mem_map.mpr ⟨(ses, state.asset), List.mem_filter.mpr ⟨h, by simp⟩, rfl⟩
  rw [hnil] at hmem
  cases hmem

/-- What a query adds to those that are waited for. -/
theorem assetStates_assetOnUpdate (ws : AccessWs D) (userId : ℕ) (asset : String) :
    ∃ asked, asked.length ≤ 1 ∧
      (ws.assetOnUpdate userId asset).assetStates = ws.assetStates ++ asked := by
  unfold AccessWs.assetOnUpdate
  split_ifs
  · exact ⟨[], Nat.zero_le _, (List.append_nil _).symm⟩
  · exact ⟨[⟨userId, asset⟩], le_rfl, rfl⟩

theorem mem_assetOnUpdate (ws : AccessWs D) (h : ws.dictAsset.HasName state.userId ses state.asset) :
    ∃ asked, (ws.assetOnUpdate state.userId state.asset).assetStates = ws.assetStates ++ asked ∧
      state ∈ asked := by
  unfold AccessWs.assetOnUpdate
  rw [if_neg (listeners_ne_nil h)]
  exact ⟨[state], rfl, List.mem_singleton_self _⟩

theorem orderOnUpdate_assetStates (ws : AccessWs D) (userId : ℕ) (order : Json) :
    (ws.orderOnUpdate userId order).assetStates = ws.assetStates := by
  unfold AccessWs.orderOnUpdate
  split <;> rfl

theorem orderOnUpdate_dictAsset (ws : AccessWs D) (userId : ℕ) (order : Json) :
    (ws.orderOnUpdate userId order).dictAsset = ws.dictAsset := by
  unfold AccessWs.orderOnUpdate
  split <;> rfl

theorem assetOnUpdate_dictAsset (ws : AccessWs D) (userId : ℕ) (asset : String) :
    (ws.assetOnUpdate userId asset).dictAsset = ws.dictAsset := by
  unfold AccessWs.assetOnUpdate
  split_ifs <;> rfl

theorem toUint32_user (h : state.userId < 2 ^ 32) : toUint32 (state.userId : ℤ) = state.userId := by
  unfold toUint32
  omega

/-- The new queries, and one of them. -/
theorem mem_drop_of_append {l l' : List AssetState} (asked : List AssetState) (h : l' = l ++ asked)
    (hmem : state ∈ asked) : state ∈ l'.drop l.length := by
  rw [h, List.drop_left]
  exact hmem

/-- A message about a balance that someone listens to is followed by a query. -/
theorem read_asks {msg : Message D} {json : Json} {ws ws' : AccessWs D} (hpos : state.userId ≠ 0)
    (huser : state.userId < 2 ^ 32) (hlisten : ws.dictAsset.HasName state.userId ses state.asset)
    (hwritten : msg.WrittenAs json) (hconcerns : msg.Concerns state.userId state.asset)
    (hstep : AccessWs.Step c ws (msg.act json) ws') :
    state ∈ ws'.assetStates.drop ws.assetStates.length := by
  cases msg with
  | deal => exact hconcerns.elim
  | balance u a business change =>
    obtain ⟨rfl, rfl⟩ := hconcerns
    obtain ⟨huserId, hasset⟩ := hwritten
    cases hstep
    unfold AccessWs.processBalancesMessage
    simp only [hasset, huserId, Json.integerValue, toUint32_user huser, if_neg hpos]
    obtain ⟨asked, hasked, hmem⟩ := mem_assetOnUpdate { ws with sent := [] } hlisten
    exact mem_drop_of_append asked hasked hmem
  | order event o stock money =>
    obtain ⟨huserId, hassets⟩ := hconcerns
    obtain ⟨hevent, hstock, hmoney, order, horder, horderUser, hmarket⟩ := hwritten
    have hcode : toInt32 (event.code : ℤ) ≠ 0 := by
      cases event <;> decide
    cases hstep
    unfold AccessWs.processOrdersMessage
    simp only [horder, hstock, hmoney, hevent, horderUser, Json.integerValue, huserId,
      toUint32_user huser, hcode, hpos, or_self, if_false]
    rw [orderOnUpdate_assetStates]
    set ws₁ := { ws with sent := [] }.assetOnUpdate state.userId stock with hws₁
    have hlisten₁ : ws₁.dictAsset.HasName state.userId ses state.asset := by
      rw [hws₁, assetOnUpdate_dictAsset]
      exact hlisten
    obtain ⟨asked₂, -, hasked₂⟩ := assetStates_assetOnUpdate ws₁ state.userId money
    rcases hassets with hassetStock | hassetMoney
    · obtain ⟨asked, hasked, hmem⟩ := mem_assetOnUpdate { ws with sent := [] } hlisten
      rw [hassetStock, ← hws₁] at hasked
      refine mem_drop_of_append (asked ++ asked₂) ?_ (List.mem_append_left _ hmem)
      rw [hasked₂, hasked, List.append_assoc]
    · obtain ⟨asked₁, -, hasked₁⟩ := assetStates_assetOnUpdate { ws with sent := [] } state.userId stock
      obtain ⟨asked, hasked, hmem⟩ := mem_assetOnUpdate ws₁ hlisten₁
      rw [hassetMoney] at hasked
      refine mem_drop_of_append (asked₁ ++ asked) ?_ (List.mem_append_right _ hmem)
      rw [hasked, hws₁, hasked₁, List.append_assoc]

theorem fresh_read {before after : List (Message D)} {msg : Message D} {json : Json} {ws : AccessWs D}
    (hknown : Known state w) (hlisten : w.ws.dictAsset.HasName state.userId ses state.asset)
    (h : Fresh mpd state ses w₁ w) (hcoming : w.coming = before ++ msg :: after)
    (hwritten : msg.WrittenAs json) (hstep : AccessWs.Step c w.ws (msg.act json) ws) :
    Fresh mpd state ses w₁ { w with
      ws := ws
      coming := before ++ after
      asked := w.asked ++ ws.assetStates.drop w.ws.assetStates.length } := by
  by_cases hconcerns : msg.Concerns state.userId state.asset
  · exact .query (List.mem_append_right _
      (read_asks hknown.pos hknown.user hlisten hwritten hconcerns hstep))
  · cases h with
    | message h =>
      obtain ⟨msg', hmem, hconcerns'⟩ := h
      refine .message ⟨msg', ?_, hconcerns'⟩
      rw [hcoming, List.mem_append, List.mem_cons] at hmem
      rcases hmem with hmem | rfl | hmem
      · exact List.mem_append_left _ hmem
      · exact absurd hconcerns' hconcerns
      · exact List.mem_append_right _ hmem
    | query h => exact .query (List.mem_append_left _ h)
    | reply h => exact .reply h
    | told h h' => exact .told h h'
    | unchanged h h' h'' => exact .unchanged h h' h''

/-! ### Queries and replies -/

theorem fresh_answer {asked : AssetState} {rest : List AssetState} (hknown : Known state w)
    (h : Fresh mpd state ses w₁ w) (hasked : w.asked = asked :: rest) :
    Fresh mpd state ses w₁ { w with
      asked := rest
      answered := w.answered ++
        [(asked, w.engine.onCmdBalanceQuery mpd assets asked.params)] } := by
  set w' : BalanceWorld D := { w with
    asked := rest
    answered := w.answered ++ [(asked, w.engine.onCmdBalanceQuery mpd assets asked.params)] }
  by_cases hself : asked = state
  · refine .reply ?_
    have hreplies : w'.replies state = w.replies state ++ [(state, .ok (w.current mpd state))] := by
      rw [replies, List.filter_append, List.filter_cons_of_pos (by simpa using hself),
        List.filter_nil, hself, Engine.onCmdBalanceQuery_state mpd _ _ hknown.pos hknown.user
          hknown.asset]
      rfl
    rw [hreplies, List.getLast?_append]
    rfl
  · have hreplies : w'.replies state = w.replies state := by
      rw [replies, List.filter_append, List.filter_cons_of_neg (by simpa using hself),
        List.filter_nil, List.append_nil]
      rfl
    cases h with
    | message h => exact .message h
    | query h =>
      rw [hasked, List.mem_cons] at h
      exact .query (h.resolve_left fun heq => hself heq.symm)
    | reply h => exact .reply (by rw [hreplies]; exact h)
    | told h h' => exact .told (hreplies.trans h) h'
    | unchanged h h' h'' => exact .unchanged (hreplies.trans h) h' h''

/-- A reply is sent to whoever listens. -/
theorem tell_listener {result : List (String × BalanceUnit D)} {ws : AccessWs D}
    (hlisten : w.ws.dictAsset.HasName state.userId ses state.asset)
    (hstep : AccessWs.Step c w.ws (.balanceReply state) ws) :
    w.tell state result ws.sent ses state = some result := by
  cases hstep
  refine if_pos ⟨rfl, List.mem_map.mpr ⟨(ses, state.userId), ?_, rfl⟩⟩
  exact List.mem_append_right _
    (List.mem_map.mpr ⟨(ses, state.asset), List.mem_filter.mpr ⟨hlisten, by simp⟩, rfl⟩)

/-- The first reply is taken: another one, or one that is not the last, or the last. -/
theorem fresh_taken {reply : AssetState × Except Refusal (List (String × BalanceUnit D))}
    {rest : List (AssetState × Except Refusal (List (String × BalanceUnit D)))} {ws : AccessWs D}
    {told : Ses → AssetState → Option (List (String × BalanceUnit D))}
    (h : Fresh mpd state ses w₁ w) (hanswered : w.answered = reply :: rest)
    (hother : reply.1 ≠ state → told ses state = w.told ses state)
    (hself : reply = (state, .ok (w.current mpd state)) → told ses state = some (w.current mpd state)) :
    Fresh mpd state ses w₁ { w with ws := ws, answered := rest, told := told } := by
  set w' : BalanceWorld D := { w with ws := ws, answered := rest, told := told }
  by_cases hreply : reply.1 = state
  · have hreplies : w.replies state = reply :: w'.replies state := by
      rw [replies, hanswered, List.filter_cons_of_pos (by simpa using hreply)]
      rfl
    cases h with
    | message h => exact .message h
    | query h => exact .query h
    | reply h =>
      rw [hreplies] at h
      cases hrest : w'.replies state with
      | nil =>
        rw [hrest, List.getLast?_singleton] at h
        exact .told hrest (hself (Option.some.inj h))
      | cons next more =>
        rw [hrest, List.getLast?_cons_cons] at h
        exact .reply (by rw [hrest]; exact h)
    | told h => exact absurd (hreplies.symm.trans h) (List.cons_ne_nil _ _)
    | unchanged h => exact absurd (hreplies.symm.trans h) (List.cons_ne_nil _ _)
  · have hreplies : w'.replies state = w.replies state := by
      rw [replies, replies, hanswered, List.filter_cons_of_neg (by simpa using hreply)]
    cases h with
    | message h => exact .message h
    | query h => exact .query h
    | reply h => exact .reply (by rw [hreplies]; exact h)
    | told h h' => exact .told (hreplies.trans h) ((hother hreply).trans h')
    | unchanged h h' h'' => exact .unchanged (hreplies.trans h) ((hother hreply).trans h') h''

theorem Known.step (h : Known state w) (hstep : Step mpd assets c w w') : Known state w' := by
  cases hstep with
  | request hreq =>
    exact ⟨h.pos, h.user, by rw [← h.asset]; exact congrArg (assetExist · _) (Engine.step_fixed hreq).1⟩
  | _ => exact ⟨h.pos, h.user, h.asset⟩

theorem Fresh.step (hknown : Known state w)
    (hlisten : w.ws.dictAsset.HasName state.userId ses state.asset) (h : Fresh mpd state ses w₁ w)
    (hstep : Step mpd assets c w w') : Fresh mpd state ses w₁ w' := by
  cases hstep with
  | request hreq => exact fresh_request h hreq
  | read hcoming hwritten hws => exact fresh_read hknown hlisten h hcoming hwritten hws
  | answer hasked => exact fresh_answer hknown h hasked
  | reply hanswered hws =>
    refine fresh_taken h hanswered (fun hne => if_neg fun heq => hne heq.1.symm) fun heq => ?_
    obtain ⟨rfl, hresult⟩ := Prod.mk.inj heq
    rw [tell_listener hlisten hws, Except.ok.inj hresult]
  | error hanswered hws => exact fresh_taken h hanswered (fun _ => rfl) fun heq => by cases heq
  | own => exact h.mono (List.Subset.refl _) (List.Subset.refl _) rfl rfl rfl

/-- Once nothing is on its way, a session was last told what the engine has now, or it has been told
nothing since `w₁`, and the engine has what it had. -/
theorem told_of_settled (hknown : Known state w₁) (hstart : w₁.replies state = [])
    (hrun : Listening mpd assets c state ses w₁ w) (hsettled : Settled w) :
    w.told ses state = some (w.current mpd state) ∨
      w.told ses state = w₁.told ses state ∧ w.current mpd state = w₁.current mpd state := by
  have hfresh : Known state w ∧ w.ws.dictAsset.HasName state.userId ses state.asset ∧
      Fresh mpd state ses w₁ w := by
    clear hsettled
    induction hrun with
    | refl hlisten => exact ⟨hknown, hlisten, .unchanged hstart rfl rfl⟩
    | step _ hstep hlisten ih => exact ⟨ih.1.step hstep, hlisten, ih.2.2.step ih.1 ih.2.1 hstep⟩
  cases hfresh.2.2 with
  | message h =>
    obtain ⟨msg, hmsg, -⟩ := h
    rw [hsettled.coming] at hmsg
    cases hmsg
  | query h =>
    rw [hsettled.asked] at h
    cases h
  | reply h =>
    rw [replies, hsettled.answered] at h
    cases h
  | told _ h => exact Or.inl h
  | unchanged _ h h' => exact Or.inr ⟨h, h'⟩

/-! ## Everything arrives -/

/-- What accessws cannot read is not on its way to it, and it waits for whatever reply is to come. -/
structure Awaited (w : BalanceWorld D) : Prop where
  heard : ∀ msg ∈ w.coming, msg.heard = true
  waited : ∀ state, (w.asked ++ w.answered.map Prod.fst).count state ≤ w.ws.assetStates.count state

/-- What is left to do. A message makes two queries at most. -/
def pending (w : BalanceWorld D) : ℕ :=
  5 * w.coming.length + 2 * w.asked.length + w.answered.length

theorem assetStates_handler (ws : AccessWs D) (ses : Ses) (info : CltInfo) (params : List Json)
    (method : WsMethod) : (ws.handler c ses info params method).assetStates = ws.assetStates := by
  cases method with
  | serverAuth =>
    show (ws.sendAuthRequest ses params).assetStates = _
    unfold AccessWs.sendAuthRequest
    split
    · split_ifs <;> rfl
    · rfl
  | serverSign =>
    show (ws.sendSignRequest ses params).assetStates = _
    unfold AccessWs.sendSignRequest
    split
    · split_ifs <;> rfl
    · rfl
  | klineSubscribe =>
    show (ws.onMethodKlineSubscribe ses params).assetStates = _
    unfold AccessWs.onMethodKlineSubscribe
    split <;> rfl
  | orderSubscribe =>
    show (ws.onMethodOrderSubscribe ses info params).assetStates = _
    unfold AccessWs.onMethodOrderSubscribe
    split_ifs <;> rfl
  | assetSubscribe =>
    show (ws.onMethodAssetSubscribe ses info params).assetStates = _
    unfold AccessWs.onMethodAssetSubscribe
    split_ifs <;> rfl
  | orderUnsubscribe | assetUnsubscribe =>
    unfold AccessWs.handler
    dsimp only
    split_ifs <;> rfl
  | _ => rfl

theorem assetStates_onResult (ws : AccessWs D) (state : AuthState) (result : Option Json) :
    (ws.onResult state result).assetStates = ws.assetStates := by
  unfold AccessWs.onResult
  split
  · split_ifs <;> rfl
  · rfl

theorem assetStates_own {act : WsAct} {ws ws' : AccessWs D} (hown : OwnAct act)
    (hstep : AccessWs.Step c ws act ws') : ws'.assetStates = ws.assetStates := by
  cases hstep with
  | request => exact assetStates_handler ..
  | @close ses found =>
    show ((ws.info ses).elim ws (ws.onClose ses found)).assetStates = ws.assetStates
    cases ws.info ses <;> rfl
  | authResult | signResult => exact assetStates_onResult ..
  | order | balance | balanceReply | balanceLost => exact hown.elim
  | _ => rfl

/-- A message changes no list, and it makes two queries at most. -/
theorem asked_read {msg : Message D} {json : Json} {ws ws' : AccessWs D}
    (hstep : AccessWs.Step c ws (msg.act json) ws') :
    ws'.dictAsset = ws.dictAsset ∧
      ∃ asked, asked.length ≤ 2 ∧ ws'.assetStates = ws.assetStates ++ asked := by
  have hbalance : ∀ msg, ({ ws with sent := [] }.processBalancesMessage msg).dictAsset = ws.dictAsset ∧
      ∃ asked, asked.length ≤ 2 ∧
        ({ ws with sent := [] }.processBalancesMessage msg).assetStates = ws.assetStates ++ asked := by
    intro msg
    unfold AccessWs.processBalancesMessage
    split
    · dsimp only
      split_ifs
      · exact ⟨rfl, [], Nat.zero_le _, (List.append_nil _).symm⟩
      · refine ⟨assetOnUpdate_dictAsset _ _ _, ?_⟩
        obtain ⟨asked, hlength, hasked⟩ := assetStates_assetOnUpdate { ws with sent := [] } _ _
        exact ⟨asked, hlength.trans one_le_two, hasked⟩
    · exact ⟨rfl, [], Nat.zero_le _, (List.append_nil _).symm⟩
  cases msg with
  | order =>
    cases hstep
    unfold AccessWs.processOrdersMessage
    split
    next stock money _ _ _ =>
      dsimp only
      split_ifs
      · exact ⟨rfl, [], Nat.zero_le _, (List.append_nil _).symm⟩
      · rw [orderOnUpdate_assetStates, orderOnUpdate_dictAsset, assetOnUpdate_dictAsset,
          assetOnUpdate_dictAsset]
        obtain ⟨asked₁, hlength₁, hasked₁⟩ := assetStates_assetOnUpdate { ws with sent := [] } _ stock
        obtain ⟨asked₂, hlength₂, hasked₂⟩ := assetStates_assetOnUpdate
          ({ ws with sent := [] }.assetOnUpdate _ stock) _ money
        refine ⟨rfl, asked₁ ++ asked₂, ?_, ?_⟩
        · rw [List.length_append]
          omega
        · rw [hasked₂, hasked₁, List.append_assoc]
    next => exact ⟨rfl, [], Nat.zero_le _, (List.append_nil _).symm⟩
  | _ =>
    cases hstep
    exact hbalance _

theorem Awaited.step (h : Awaited w) (hstep : Step mpd assets c w w') : Awaited w' := by
  cases hstep with
  | request =>
    refine ⟨fun msg hmsg => ?_, h.waited⟩
    rcases List.mem_append.mp hmsg with hmsg | hmsg
    · exact h.heard msg hmsg
    · exact (List.mem_filter.mp hmsg).2
  | read hcoming _ hws =>
    refine ⟨fun msg hmsg => h.heard msg ?_, fun state => ?_⟩
    · rw [hcoming, List.mem_append, List.mem_cons]
      exact (List.mem_append.mp hmsg).imp_right Or.inr
    · obtain ⟨-, asked, -, hasked⟩ := asked_read hws
      have hwaited := h.waited state
      dsimp only
      rw [hasked, List.drop_left]
      simp only [List.count_append] at hwaited ⊢
      omega
  | answer hasked =>
    refine ⟨h.heard, fun state => ?_⟩
    have hwaited := h.waited state
    rw [hasked] at hwaited
    simp only [List.map_append, List.map_cons, List.map_nil, List.count_append, List.count_cons,
      List.count_nil] at hwaited ⊢
    omega
  | reply hanswered hws =>
    refine ⟨h.heard, fun state => ?_⟩
    have hwaited := h.waited state
    rw [hanswered] at hwaited
    cases hws
    show _ ≤ (w.ws.assetStates.erase _).count state
    simp only [List.map_cons, List.count_append, List.count_cons, List.count_erase, beq_iff_eq]
      at hwaited ⊢
    split_ifs at hwaited ⊢ <;> omega
  | error hanswered hws =>
    refine ⟨h.heard, fun state => ?_⟩
    have hwaited := h.waited state
    rw [hanswered] at hwaited
    cases hws
    simp only [List.map_cons, List.count_append, List.count_cons, List.count_erase, beq_iff_eq]
      at hwaited ⊢
    split_ifs at hwaited ⊢ <;> omega
  | own hown hws =>
    refine ⟨h.heard, fun state => ?_⟩
    dsimp only
    rw [assetStates_own hown hws]
    exact h.waited state

theorem exists_writtenAs {msg : Message D} (hheard : msg.heard = true) :
    ∃ json, msg.WrittenAs json := by
  cases msg with
  | deal => cases hheard
  | balance u a business change => exact ⟨.array [.null, .integer u, .string a], rfl, rfl⟩
  | order event o stock money =>
    exact ⟨.object [("event", .integer event.code), ("stock", .string stock), ("money", .string money),
      ("order", .object [("user", .integer o.userId), ("market", .string o.market)])],
      rfl, rfl, rfl, _, rfl, rfl, rfl⟩

theorem exists_act (msg : Message D) (json : Json) (ws : AccessWs D) :
    ∃ ws', AccessWs.Step c ws (msg.act json) ws' := by
  cases msg with
  | order => exact ⟨_, .order⟩
  | _ => exact ⟨_, .balance⟩

/-- Whatever is on its way can be taken, and then less is left to do. -/
theorem Awaited.progress (h : Awaited w) (hsettled : ¬ Settled w) :
    ∃ w', Step mpd assets c w w' ∧ w'.engine = w.engine ∧ w'.ws.dictAsset = w.ws.dictAsset ∧
      w'.pending < w.pending := by
  cases hcoming : w.coming with
  | cons msg after =>
    have hheard := h.heard msg (by rw [hcoming]; exact List.mem_cons_self)
    obtain ⟨json, hwritten⟩ := exists_writtenAs hheard
    obtain ⟨ws, hws⟩ := exists_act (c := c) msg json w.ws
    obtain ⟨hdict, asked, hlength, hasked⟩ := asked_read hws
    refine ⟨_, .read (show w.coming = [] ++ msg :: after from hcoming) hwritten hws, rfl, hdict, ?_⟩
    unfold pending
    dsimp only
    rw [hcoming, hasked, List.drop_left, List.nil_append, List.length_cons, List.length_append]
    omega
  | nil =>
    cases hasked : w.asked with
    | cons state rest =>
      refine ⟨_, .answer hasked, rfl, rfl, ?_⟩
      unfold pending
      dsimp only
      rw [hasked, List.length_cons, List.length_append, List.length_singleton]
      omega
    | nil =>
      cases hanswered : w.answered with
      | nil => exact absurd ⟨hcoming, hasked, hanswered⟩ hsettled
      | cons reply rest =>
        have hless : ∀ {w' : BalanceWorld D}, w'.coming = w.coming → w'.asked = w.asked →
            w'.answered = rest → w'.pending < w.pending := by
          intro w' hcoming' hasked' hanswered'
          unfold pending
          rw [hcoming', hasked', hanswered', hanswered, List.length_cons]
          omega
        obtain ⟨state, result | result⟩ := reply
        · exact ⟨_, .error hanswered .balanceLost, rfl, rfl, hless rfl rfl rfl⟩
        · have hwaited : state ∈ w.ws.assetStates := by
            refine List.count_pos_iff.mp (lt_of_lt_of_le ?_ (h.waited state))
            rw [hanswered, List.count_append, List.map_cons, List.count_cons_self]
            omega
          exact ⟨_, .reply hanswered (.balanceReply hwaited), rfl, rfl, hless rfl rfl rfl⟩

/-- Without any more requests, all that is on its way arrives. -/
theorem Awaited.settles (h : Awaited w) (hrun : Listening mpd assets c state ses w₁ w) :
    ∃ w', Listening mpd assets c state ses w₁ w' ∧ w'.engine = w.engine ∧ Settled w' := by
  have hlisten : w.ws.dictAsset.HasName state.userId ses state.asset := by
    cases hrun <;> assumption
  induction hpending : w.pending using Nat.strong_induction_on generalizing w with
  | _ n ih =>
    by_cases hsettled : Settled w
    · exact ⟨w, hrun, rfl, hsettled⟩
    · obtain ⟨w', hstep, hengine, hdict, hless⟩ : ∃ w', Step mpd assets c w w' ∧
          w'.engine = w.engine ∧ w'.ws.dictAsset = w.ws.dictAsset ∧ w'.pending < w.pending :=
        h.progress hsettled
      have hlisten' : w'.ws.dictAsset.HasName state.userId ses state.asset := by
        rw [hdict]
        exact hlisten
      obtain ⟨w'', hrun', hengine', hsettled'⟩ :=
        ih _ (hpending ▸ hless) (h.step hstep) (hrun.step hstep hlisten') hlisten' rfl
      exact ⟨w'', hrun', hengine'.trans hengine, hsettled'⟩

theorem Awaited.run (h : Awaited w₁) (hrun : Listening mpd assets c state ses w₁ w) : Awaited w := by
  induction hrun with
  | refl => exact h
  | step _ hstep _ ih => exact ih.step hstep

/-- **What a client is shown in the end is what the user has.** A session has been subscribed to an
asset of a user from a point on at which no reply about it was on its way. Once nothing is on its
way, it was last told what the engine has now, or it has been told nothing since, and the engine has
what it had; and without any more requests it does come to this. -/
theorem told_current (hknown : Known state w₁) (hstart : w₁.replies state = []) (hawaited : Awaited w₁)
    (hrun : Listening mpd assets c state ses w₁ w) :
    (Settled w → w.told ses state = some (w.current mpd state) ∨
      w.told ses state = w₁.told ses state ∧ w.current mpd state = w₁.current mpd state) ∧
    ∃ w', Listening mpd assets c state ses w₁ w' ∧ w'.engine = w.engine ∧ Settled w' :=
  ⟨told_of_settled hknown hstart hrun, (hawaited.run hrun).settles hrun⟩

/-- Session 7 listens to the BTC of user 42, who gets some. -/
theorem told_current_deposit :
    ∃ w₁ w : BalanceWorld ℚ,
      Engine.init decimal128 exampleAssets [exampleConf 8] = some w₁.engine ∧
        w₁.engine.step decimal128 true (deposit 42 "BTC" 1 5) = some w.engine ∧ Settled w ∧
          w.told 7 ⟨42, "BTC"⟩ = some [("BTC", (some 5, none))] := by
  obtain ⟨e, hrun, hcheck⟩ := (Option.any_eq_true _ _).mp
    (by decide +kernel : (exampleRun decimal128 8 [deposit 42 "BTC" 1 5]).any
      (fun e => balanceUnit decimal128 e.statics.ledger 42 "BTC" = (some 5, none)) = true)
  obtain ⟨e₀, hinit, hrun⟩ := Option.bind_eq_some_iff.mp hrun
  have hcheck₀ := exampleInit_spec
    (fun e => balanceUnit decimal128 e.statics.ledger 42 "BTC" = (none, none) ∧
      assetExist e.statics.ledger.dictAsset "BTC" = true) hinit (by decide +kernel)
  obtain ⟨hunit₀, hasset⟩ := of_decide_eq_true hcheck₀
  have hstep : e₀.step decimal128 true (deposit 42 "BTC" 1 5) = some e := by
    obtain ⟨e', hstep, hrest⟩ := Option.bind_eq_some_iff.mp hrun
    rw [hstep]
    exact hrest
  let listening : AccessWs ℚ :=
    { (AccessWs.start : AccessWs ℚ) with dictAsset := Finmap.insert 42 [(7, "BTC")] ∅ }
  have hlisten : listening.dictAsset.HasName 42 7 "BTC" :=
    (by decide +kernel : (7, "BTC") ∈ (Dict.find (Finmap.insert 42 [(7, "BTC")] ∅ : UserSubs) 42).getD [])
  let w₁ : BalanceWorld ℚ := ⟨e₀, listening, [], [], [], fun _ _ => none⟩
  have hknown : Known ⟨42, "BTC"⟩ w₁ := ⟨by decide, by decide, hasset⟩
  have hawaited : Awaited w₁ := ⟨fun _ h => (List.not_mem_nil h).elim, fun _ => Nat.zero_le _⟩
  have hrun₁ : Listening decimal128 [] AccessWs.exampleWsSettings ⟨42, "BTC"⟩ 7 w₁ _ :=
    .step (.refl hlisten) (.request hstep) hlisten
  obtain ⟨w, hrun, hengine, hsettled⟩ := (told_current hknown rfl hawaited hrun₁).2
  refine ⟨w₁, w, hinit, hengine ▸ hstep, hsettled, ?_⟩
  have hcurrent : w.current decimal128 ⟨42, "BTC"⟩ = [("BTC", (some 5, none))] := by
    unfold current
    rw [hengine, of_decide_eq_true hcheck]
  rcases (told_current hknown rfl hawaited hrun).1 hsettled with htold | ⟨-, hsame⟩
  · rw [htold, hcurrent]
  · rw [hcurrent] at hsame
    unfold current at hsame
    rw [hunit₀] at hsame
    cases hsame

end BalanceWorld

end ViabtcExchange
