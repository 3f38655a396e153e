import ViabtcExchange.Events
import ViabtcExchange.Lib.Feeds
import ViabtcExchange.OrderQuery
import ViabtcExchange.Reports

/-!
# The open orders, from the messages (`push_order_message`)

A client that is sent the messages about the orders of a user in a market keeps the list of the
open ones: PUT and UPDATE carry the order as it is now, FINISH takes it off.

**Theorem (`fed_orders`).** After every run the list is what is on the book, order by order.
**Theorem (`caught_up_orders`).** A client need not have listened from the beginning: it starts to
listen, reads the pages of `order.query`, and applies what it was sent since before the first page.
If no order of the user was finished between the first page and the last, it has the list as if it
had listened all the time.
-/

namespace ViabtcExchange

section Feed

variable {D : Type}

/-- What a message says of the list of the open orders. -/
def orderChange (event : OrderEvent) (order : Order D) : Change ℕ (OrderInfo D) :=
  match event with
  | .put => .put order.id (getOrderInfo order)
  | .update => .put order.id (getOrderInfo order)
  | .finish => .drop order.id

/-- What the messages say of the orders of a user in a market. -/
def orderFeed (userId : ℕ) (name : String) (messages : List (Message D)) :
    List (Change ℕ (OrderInfo D)) :=
  messages.filterMap fun
    | .order event order _ _ =>
      if order.userId = userId ∧ order.market = name then some (orderChange event order) else none
    | _ => none

/-- The list of a client that was sent these messages. -/
def fedOrders (userId : ℕ) (name : String) (messages : List (Message D)) : Dict ℕ (OrderInfo D) :=
  Change.applyAll ∅ (orderFeed userId name messages)

theorem orderFeed_append (userId : ℕ) (name : String) (ms ms' : List (Message D)) :
    orderFeed userId name (ms ++ ms') = orderFeed userId name ms ++ orderFeed userId name ms' :=
  List.filterMap_append

@[simp] theorem orderChange_key (event : OrderEvent) (order : Order D) :
    (orderChange event order).key = order.id := by
  cases event <;> rfl

/-- What the messages about one order say of it. -/
theorem orderFeed_filter (userId : ℕ) (name : String) (messages : List (Message ℚ)) (i : ℕ) :
    (orderFeed userId name messages).filter (fun c => c.key = i) =
      ((orderEvents i messages).filter fun ev => ev.2.userId = userId ∧ ev.2.market = name).map
        fun ev => orderChange ev.1 ev.2 := by
  induction messages with
  | nil => rfl
  | cons msg messages ih =>
    cases msg with
    | balance => exact ih
    | deal => exact ih
    | order event o stock money =>
      unfold orderFeed orderEvents at ih ⊢
      by_cases hface : o.userId = userId ∧ o.market = name <;> by_cases hid : o.id = i <;>
        simp [hface, hid, ih]

end Feed

/-! ## The last message about an order -/

section Last

variable {round : ℚ → ℚ}

/-- All messages about an order are about the order of one user in one market. -/
def SameOwner (events : List (OrderEvent × Order ℚ)) (o : Order ℚ) : Prop :=
  ∀ ev ∈ events, ev.2.userId = o.userId ∧ ev.2.market = o.market

/-- The last message about an order shows it as it is. -/
structure Watched (events : List (OrderEvent × Order ℚ)) (o : Order ℚ) : Prop where
  owner : SameOwner events o
  last : ∃ before event o', events = before ++ [(event, o')] ∧ event ≠ .finish ∧
    o'.id = o.id ∧ getOrderInfo o' = getOrderInfo o

/-- The last message about an order takes it off. -/
structure Unwatched (events : List (OrderEvent × Order ℚ)) (o : Order ℚ) : Prop where
  owner : SameOwner events o
  last : ∃ before, events = before ++ [(.finish, o)]

theorem SameOwner.push {events : List (OrderEvent × Order ℚ)} {o o' : Order ℚ}
    (h : SameOwner events o) (huser : o'.userId = o.userId) (hmarket : o'.market = o.market)
    (event : OrderEvent) : SameOwner (events ++ [(event, o')]) o' := by
  intro ev hev
  rcases List.mem_append.mp hev with hold | hnew
  · exact ⟨(h ev hold).1.trans huser.symm, (h ev hold).2.trans hmarket.symm⟩
  · rw [List.mem_singleton.mp hnew]
    exact ⟨rfl, rfl⟩

theorem trailRules_watched : TrailRules round (fun _ _ _ => True) True (fun _ v _ => v.events = [])
    (fun _ v o => Watched v.events o) (fun _ v o => Unwatched v.events o) where
  steady _ := trivial
  new _ _ := rfl
  taker _ _ h := h
  update {x m taker maker t v} _ _ h _ :=
    have hface := sameFace_fillMaker (m := m) (ratMpd round) x maker t
    ⟨h.owner.push hface.userId hface.market _, _, _, _, rfl, OrderEvent.noConfusion, rfl, rfl⟩
  finish {x m taker maker t v} _ _ h _ :=
    have hface := sameFace_fillMaker (m := m) (ratMpd round) x maker t
    ⟨h.owner.push hface.userId hface.market _, _, rfl⟩
  put {conf v o freeze} h := by
    unfold Trail.event
    rw [h]
    refine ⟨fun ev hev => ?_, [], .put, o, rfl, OrderEvent.noConfusion, rfl, rfl⟩
    rw [List.mem_singleton.mp hev]
    exact ⟨rfl, rfl⟩
  filled {conf v o} h := by
    unfold Trail.event
    rw [h]
    refine ⟨fun ev hev => ?_, [], rfl⟩
    rw [List.mem_singleton.mp hev]
    exact ⟨rfl, rfl⟩
  cancel h := ⟨h.owner.push rfl rfl _, _, rfl⟩
  again _ h := ⟨h.owner.push rfl rfl _, _, rfl⟩

variable {messages : List (Message ℚ)} {o : Order ℚ} {userId : ℕ} {name : String}

theorem fedOrders_find (userId : ℕ) (name : String) (messages : List (Message ℚ)) (i : ℕ) :
    (fedOrders userId name messages).find i =
      (Change.applyAll ∅ (((orderEvents i messages).filter fun ev =>
        ev.2.userId = userId ∧ ev.2.market = name).map fun ev => orderChange ev.1 ev.2)).find i := by
  rw [fedOrders, Change.find_applyAll_filter, orderFeed_filter]

/-- Of the orders of one owner the list of another has none. -/
theorem fedOrders_of_other {i : ℕ} (h : SameOwner (orderEvents i messages) o)
    (hne : ¬(o.userId = userId ∧ o.market = name)) : (fedOrders userId name messages).find i = none := by
  have hnone : (orderEvents i messages).filter
      (fun ev => ev.2.userId = userId ∧ ev.2.market = name) = [] := by
    refine List.filter_eq_nil_iff.mpr fun ev hev => ?_
    rw [(h ev hev).1, (h ev hev).2]
    simpa using hne
  rw [fedOrders_find, hnone]
  exact Dict.find_empty i

theorem Watched.find {i : ℕ} (h : Watched (orderEvents i messages) o) (hid : o.id = i) :
    (fedOrders userId name messages).find i =
      if o.userId = userId ∧ o.market = name then some (getOrderInfo o) else none := by
  split_ifs with hown
  · obtain ⟨before, event, o', hevents, hevent, hid', hinfo⟩ := h.last
    have hlast := h.owner (event, o') (by rw [hevents]; simp)
    rw [fedOrders_find, hevents, List.filter_append, List.filter_cons_of_pos
      (by rw [decide_eq_true_eq, hlast.1, hlast.2]; exact hown), List.filter_nil, List.map_append, List.map_singleton,
      Change.applyAll_append]
    have hchange : orderChange event o' = .put i (getOrderInfo o) := by
      cases event with
      | finish => exact absurd rfl hevent
      | _ => rw [orderChange, hid', hid, hinfo]
    rw [hchange, Change.applyAll_cons, Change.applyAll_nil, Change.apply, Dict.find_insert, if_pos rfl]
  · exact fedOrders_of_other h.owner hown

theorem Unwatched.find {i : ℕ} (h : Unwatched (orderEvents i messages) o) (hid : o.id = i) :
    (fedOrders userId name messages).find i = none := by
  by_cases hown : o.userId = userId ∧ o.market = name
  · obtain ⟨before, hevents⟩ := h.last
    rw [fedOrders_find, hevents, List.filter_append, List.filter_cons_of_pos (by simpa using hown),
      List.filter_nil, List.map_append, List.map_singleton, Change.applyAll_append, orderChange, hid,
      Change.applyAll_cons, Change.applyAll_nil, Change.apply, Dict.find_erase, if_pos rfl]
  · exact fedOrders_of_other h.owner hown

end Last

/-! ## Runs -/

namespace Engine

variable {round : ℚ → ℚ} {e₀ e e' : Engine ℚ} {dictAsset : Dict String AssetType}
  {confs : List (MarketConf ℚ)} {ops : List (Op ℚ)} {name : String} {m : Market ℚ} {userId i : ℕ}
  {info : OrderInfo ℚ}

/-- A market is found under its name. -/
theorem Sane.market_name (hinit : Engine.init (ratMpd round) dictAsset confs = some e₀) (h : Sane e₀ e)
    (hm : e.dictMarket.find name = some m) : m.name = name := by
  obtain ⟨m₀, hm₀, hconf⟩ := Option.map_eq_some_iff.mp (h.kept name m hm).conf
  obtain ⟨conf, -, hname, hcreate⟩ := (init_spec hinit).2.2 name m₀ hm₀
  have hname₀ : m.name = m₀.name := (congrArg MarketConf.name hconf).symm
  rw [hname₀, ← hname]
  exact congrArg MarketConf.name (marketCreate_spec hcreate).1

/-- An order of a user on the book of a market, as it is shown. -/
def Booked (e : Engine ℚ) (name : String) (userId i : ℕ) (info : OrderInfo ℚ) : Prop :=
  ∃ m side, e.dictMarket.find name = some m ∧ i ∈ m.book side ∧ (m.order i).userId = userId ∧
    info = getOrderInfo (m.order i)

theorem watched_run (hr : RoundsDown round)
    (hinit : Engine.init (ratMpd round) dictAsset confs = some e₀)
    (hrun : e₀.run (ratMpd round) true ops = some e) :
    Sane e₀ e ∧ Trailed (fun _ v o => Watched v.events o) (fun _ v o => Unwatched v.events o) e := by
  refine trailed_run hr trailRules_watched hinit (fun pre op post e₁ _ _ => ?_) hrun
  cases op with
  | limitOrder args => exact fun _ _ _ _ => trivial
  | marketOrder args => exact fun _ _ _ _ => trivial
  | cancelOrder args => exact fun _ _ _ => Or.inl trivial
  | updateBalance args padding now => trivial
  | expire now => trivial

theorem find_fedOrders (hr : RoundsDown round)
    (hinit : Engine.init (ratMpd round) dictAsset confs = some e₀)
    (hrun : e₀.run (ratMpd round) true ops = some e) :
    (fedOrders userId name e.statics.messages).find i = some info ↔ e.Booked name userId i info := by
  obtain ⟨hsane, htrailed⟩ := watched_run hr hinit hrun
  constructor
  · intro hfind
    rcases htrailed.cases hsane i with ⟨-, hstart⟩ | ⟨name', m, side, hm, hi, hid, hwatched⟩ |
      ⟨name', m, o, hm, hid, htold⟩
    · have hevents : orderEvents i e.statics.messages = [] := congrArg Trail.events hstart
      rw [fedOrders_find, hevents] at hfind
      exact absurd (hfind.symm.trans (Dict.find_empty i)) (Option.some_ne_none _)
    · rw [Watched.find hwatched hid] at hfind
      split_ifs at hfind with hown
      have hhome := (hsane.kept name' m hm).book.wf.home i
        ((hsane.kept name' m hm).book.wf.mem side i hi)
      obtain rfl : name' = name :=
        (hsane.market_name hinit hm).symm.trans (hhome.symm.trans hown.2)
      exact ⟨m, side, hm, hi, hown.1, (Option.some.inj hfind).symm⟩
    · rw [Unwatched.find htold hid] at hfind
      cases hfind
  · rintro ⟨m, side, hm, hi, huser, rfl⟩
    have hwf := (hsane.kept name m hm).book.wf
    have hmem := hwf.mem side i hi
    rw [Watched.find ((htrailed.market name m hm).booked side i hi) (hwf.named i hmem).id,
      if_pos ⟨huser, (hwf.home i hmem).trans (hsane.market_name hinit hm)⟩]

/-- **The list a client keeps is what is on the book.** After every run, the messages about the
orders of a user in a market make just the orders of this user on the book of this market, each as
it is now. -/
theorem fed_orders (hr : RoundsDown round)
    (hinit : Engine.init (ratMpd round) dictAsset confs = some e₀)
    (hrun : e₀.run (ratMpd round) true ops = some e) (userId : ℕ) (name : String) :
    ∀ i info, (fedOrders userId name e.statics.messages).find i = some info ↔
      e.Booked name userId i info :=
  fun _ _ => find_fedOrders hr hinit hrun

/-- Two asks and a bid rest, and one of the asks is cancelled. -/
def fedOps : List (Op ℚ) := beforePages ++ betweenPages ++ [cancelOrder 1 2]

/-- The list of user 1 after these. -/
theorem fed_orders_cancelled :
    ∃ e₀ e, Engine.init decimal128 exampleAssets [exampleConf 8] = some e₀ ∧
      e₀.run decimal128 true fedOps = some e ∧ e.statics.messages.length = 6 ∧
      ∀ i info, (fedOrders 1 "BTCCNY" e.statics.messages).find i = some info ↔
        e.Booked "BTCCNY" 1 i info := by
  obtain ⟨e, hrun, hcheck⟩ := (Option.any_eq_true _ _).mp
    (by decide +kernel : (exampleRun decimal128 8 fedOps).any
      (fun e => e.statics.messages.length = 6) = true)
  obtain ⟨e₀, hinit, hrun⟩ := Option.bind_eq_some_iff.mp hrun
  exact ⟨e₀, e, hinit, hrun, of_decide_eq_true hcheck,
    fed_orders roundsDown_roundDown hinit hrun 1 "BTCCNY"⟩

/-! ## Catching up -/

/-- No order of a market has left the book and is still in the dictionary. -/
def NoneStuck (e : Engine ℚ) (name : String) : Prop :=
  ∀ m, e.dictMarket.find name = some m → ∀ i ∈ m.orders, i ∈ m.book (m.order i).side

/-- The records of the pages, as a list of open orders. -/
def recordsOf (rs : ℕ → OrderRecords ℚ) (n : ℕ) : List (OrderInfo ℚ) :=
  (List.range (n + 1)).flatMap fun k => (rs k).records

/-- What a client makes of the records of the pages. -/
def snapshot (rs : ℕ → OrderRecords ℚ) (n : ℕ) : Dict ℕ (OrderInfo ℚ) :=
  Change.applyAll ∅ ((recordsOf rs n).map fun info => .put info.id info)

theorem mem_recordsOf {rs : ℕ → OrderRecords ℚ} {n : ℕ} :
    info ∈ recordsOf rs n ↔ ∃ k ≤ n, info ∈ (rs k).records := by
  simp only [recordsOf, List.mem_flatMap, List.mem_range, Nat.lt_succ_iff]

/-- Messages that finish no order of a user in a market. -/
def NoneFinished (userId : ℕ) (name : String) (messages : List (Message ℚ)) : Prop :=
  ∀ o stock money, .order .finish o stock money ∈ messages →
    ¬(o.userId = userId ∧ o.market = name)

theorem NoneFinished.puts {messages : List (Message ℚ)} (h : NoneFinished userId name messages) :
    ∀ c ∈ orderFeed userId name messages, ∃ i info, c = .put i info := by
  intro c hc
  obtain ⟨msg, hmsg, hchange⟩ := List.mem_filterMap.mp hc
  cases msg with
  | balance => cases hchange
  | deal => cases hchange
  | order event o stock money =>
    dsimp only at hchange
    split_ifs at hchange with hown
    obtain rfl := Option.some.inj hchange
    cases event with
    | finish => exact absurd hown (h o stock money hmsg)
    | put => exact ⟨_, _, rfl⟩
    | update => exact ⟨_, _, rfl⟩

section Catch

variable {n : ℕ} {es : ℕ → Engine ℚ} {ops : ℕ → List (Op ℚ)} {limit : ℕ} {ms : ℕ → Market ℚ}
  {rs : ℕ → OrderRecords ℚ} (hr : RoundsDown round)
  (hinit : Engine.init (ratMpd round) dictAsset confs = some e₀)
  (hread : Reading (ratMpd round) e₀ n es ops)

include hread

theorem Reading.run_to {k : ℕ} (hk : k ≤ n) :
    ∃ before, e₀.run (ratMpd round) true before = some (es k) := by
  induction k with
  | zero => exact hread.start
  | succ k ih =>
    obtain ⟨before, hrun⟩ := ih (by omega)
    exact ⟨before ++ ops k, by rw [run_append, hrun]; exact hread.next k hk⟩

include hr hinit in
/-- The list of a client that has listened all the time, when a page is read. -/
theorem Reading.fed {k : ℕ} (hk : k ≤ n) :
    (fedOrders userId name (es k).statics.messages).find i = some info ↔
      (es k).Booked name userId i info := by
  obtain ⟨before, hrun⟩ := hread.run_to hk
  exact find_fedOrders hr hinit hrun

theorem Reading.messages {k k' : ℕ} (hle : k ≤ k') (hk' : k' ≤ n) :
    (es k).statics.messages <+: (es k').statics.messages := by
  obtain ⟨j, rfl⟩ := Nat.exists_eq_add_of_le hle
  induction j with
  | zero => exact List.prefix_refl _
  | succ j ih => exact (ih (by omega) (by omega)).trans (run_messages (hread.next (k + j) (by omega)))

/-- The messages between two pages are some of those from the first page on. -/
theorem Reading.since_subset {k k' : ℕ} (hle : k ≤ k') (hk' : k' ≤ n) {later : List (Op ℚ)}
    (hlater : (es n).run (ratMpd round) true later = some e) :
    (es k).statics.since (es k').statics ⊆ (es 0).statics.since e.statics := by
  have hfirst := hread.messages (Nat.zero_le k) (hle.trans hk')
  have hmid := hread.messages hle hk'
  have hlast := (hread.messages hk' le_rfl).trans (run_messages hlater)
  rw [Statics.since_trans (hfirst.trans hmid) hlast, Statics.since_trans hfirst hmid]
  exact fun msg hmsg => List.mem_append_left _ (List.mem_append_right _ hmsg)

include hr hinit

/-- While none is finished, an order that is open stays open. -/
theorem Reading.stays_open (hstuck : ∀ k ≤ n, (es k).NoneStuck name)
    (hfinished : NoneFinished userId name ((es 0).statics.since (es n).statics)) {k : ℕ} (hk : k < n)
    (hopen : (es k).Open name userId i) : (es (k + 1)).Open name userId i := by
  obtain ⟨m, hm, hi, huser⟩ := hopen
  have hbooked : (es k).Booked name userId i (getOrderInfo (m.order i)) :=
    ⟨m, _, hm, hstuck k hk.le m hm i hi, huser, rfl⟩
  have hfed := (hread.fed hr hinit hk.le).mpr hbooked
  have hnone : NoneFinished userId name ((es k).statics.since (es (k + 1)).statics) :=
    fun o stock money hmem => hfinished o stock money
      (hread.since_subset (Nat.le_succ k) hk (run_nil (e := es n)) hmem)
  have hnext : (fedOrders userId name (es (k + 1)).statics.messages).find i ≠ none := by
    rw [← Statics.append_since (hread.messages (Nat.le_succ k) hk), fedOrders, orderFeed_append,
      Change.applyAll_append]
    refine Change.find_ne_none_of_puts hnone.puts ?_
    rw [← fedOrders, hfed]
    exact Option.some_ne_none _
  obtain ⟨info, hinfo⟩ := Option.ne_none_iff_exists'.mp hnext
  obtain ⟨m', side, hm', hi', huser', -⟩ := (hread.fed hr hinit hk).mp hinfo
  have hwf := (hread.shaped hinit hk).wf name m' hm'
  exact ⟨m', hm', hwf.mem side i hi', huser'⟩

/-- Of an order there is no message about, the pages say what there is to say. -/
theorem UserPages.snapshot_find (hpages : UserPages es name userId limit n ms rs)
    (hstuck : ∀ k ≤ n, (es k).NoneStuck name)
    (hfinished : NoneFinished userId name ((es 0).statics.since (es n).statics))
    (htotal : (rs n).total ≤ (n + 1) * limit)
    (hsteady : ∀ k ≤ n, (fedOrders userId name (es k).statics.messages).find i =
      (fedOrders userId name (es 0).statics.messages).find i) :
    (snapshot rs n).find i = (fedOrders userId name (es 0).statics.messages).find i := by
  -- what a page shows of the order is what the messages show
  have hrecord : ∀ info ∈ recordsOf rs n, info.id = i →
      (fedOrders userId name (es 0).statics.messages).find i = some info := by
    intro info hinfo hid
    obtain ⟨k, hk, hinfo⟩ := mem_recordsOf.mp hinfo
    obtain ⟨horder, huser, hshown⟩ := hpages.record hread hinit hk hinfo
    rw [← hsteady k hk, hread.fed hr hinit hk]
    rw [hid] at horder huser hshown
    exact ⟨ms k, _, hpages.find k hk, hstuck k hk _ (hpages.find k hk) i horder, huser, hshown⟩
  cases hfind : (fedOrders userId name (es 0).statics.messages).find i with
  | none =>
    have hnot : i ∉ ((recordsOf rs n).map fun info => Change.put info.id info).map Change.key := by
      rw [List.map_map]
      rintro hmem
      obtain ⟨info, hinfo, hid⟩ := List.mem_map.mp hmem
      exact absurd (hfind.symm.trans (hrecord info hinfo hid)) (Option.some_ne_none info).symm
    rw [snapshot, Change.find_applyAll_of_notMem hnot]
    exact Dict.find_empty i
  | some info =>
    have hbooked : ∀ k ≤ n, (es k).Booked name userId i info := fun k hk =>
      (hread.fed hr hinit hk).mp ((hsteady k hk).trans hfind)
    have hopen : ∀ k ≤ n, (es k).Open name userId i := fun k hk => by
      obtain ⟨m, side, hm, hi, huser, -⟩ := hbooked k hk
      exact ⟨m, hm, ((hread.shaped hinit hk).wf name m hm).mem side i hi, huser⟩
    obtain ⟨k, hk, hshown⟩ := hpages.shown hread hinit hopen
      (fun k hk j _ hj => hread.stays_open hr hinit hstuck hfinished hk hj) htotal
    have hid : (getOrderInfo ((ms k).order i)).id = i := by
      obtain ⟨m, hm, hi, -⟩ := hopen k hk
      obtain rfl := Option.some.inj (hm.symm.trans (hpages.find k hk))
      exact (((hread.shaped hinit hk).wf name _ hm).named i hi).id
    have hmem : i ∈ (recordsOf rs n).map OrderInfo.id :=
      List.mem_map.mpr ⟨_, mem_recordsOf.mpr ⟨k, hk, hshown⟩, hid⟩
    have hputs := Change.find_puts (f := OrderInfo.id) (g := id) (l := recordsOf rs n) (k := i)
      (v := info) fun r hr' hrid => Option.some.inj ((hrecord r hr' hrid).symm.trans hfind)
    rw [if_pos hmem] at hputs
    exact hputs

/-- **Whoever catches up has the whole list.** A client that reads the pages of its open orders and
then applies all the messages since before the first page has the orders of the user on the book,
each as it is now, if none of them was finished from the first page to the last. -/
theorem caught_up_orders {later : List (Op ℚ)} (huser : userId < 2 ^ 32)
    (hlimit : limit ≤ orderListMaxLen) (hoffset : n * limit < 2 ^ 63)
    (hrs : ∀ k ≤ n, (es k).onCmdOrderQuery
      [.integer userId, .string name, .integer (k * limit : ℕ), .integer limit] = .ok (rs k))
    (htotal : (rs n).total ≤ (n + 1) * limit) (hstuck : ∀ k ≤ n, (es k).NoneStuck name)
    (hfinished : NoneFinished userId name ((es 0).statics.since (es n).statics))
    (hlater : (es n).run (ratMpd round) true later = some e) :
    ∀ i info, (Change.applyAll (snapshot rs n)
        (orderFeed userId name ((es 0).statics.since e.statics))).find i = some info ↔
      e.Booked name userId i info := by
  obtain ⟨ms, hpages⟩ := userPages_of_replies huser hlimit hoffset hrs
  obtain ⟨before, hbefore⟩ := hread.run_to le_rfl
  have hrun : e₀.run (ratMpd round) true (before ++ later) = some e := by
    rw [run_append, hbefore]
    exact hlater
  have hall : e.statics.messages = (es 0).statics.messages ++ (es 0).statics.since e.statics :=
    (Statics.append_since ((hread.messages (Nat.zero_le n) le_rfl).trans (run_messages hlater))).symm
  have hsame : Change.applyAll (snapshot rs n)
      (orderFeed userId name ((es 0).statics.since e.statics)) =
        fedOrders userId name e.statics.messages := by
    rw [hall, fedOrders, orderFeed_append, Change.applyAll_append]
    refine Change.applyAll_congr fun i hi => ?_
    refine hpages.snapshot_find hr hinit hread hstuck hfinished htotal fun k hk => ?_
    rw [← Statics.append_since (hread.messages (Nat.zero_le k) hk), fedOrders, orderFeed_append,
      Change.applyAll_append, Change.find_applyAll_of_notMem]
    · rfl
    · intro hmem
      obtain ⟨c, hc, hkey⟩ := List.mem_map.mp hmem
      obtain ⟨msg, hmsg, hchange⟩ := List.mem_filterMap.mp hc
      exact hi (List.mem_map.mpr ⟨c, List.mem_filterMap.mpr
        ⟨msg, hread.since_subset (Nat.zero_le k) hk hlater hmsg, hchange⟩, hkey⟩)
  intro i info
  rw [hsame]
  exact find_fedOrders hr hinit hrun

end Catch

instance (userId : ℕ) (name : String) (messages : List (Message ℚ)) :
    Decidable (NoneFinished userId name messages) :=
  decidable_of_iff (messages.all fun
      | .order .finish o _ _ => !decide (o.userId = userId ∧ o.market = name)
      | _ => true) (by
    rw [List.all_eq_true]
    constructor
    · intro h o stock money hmem
      have hno := h _ hmem
      rwa [Bool.not_eq_true', decide_eq_false_iff_not] at hno
    · intro h msg hmem
      split
      · rename_i o stock money
        rw [Bool.not_eq_true', decide_eq_false_iff_not]
        exact h o stock money hmem
      · rfl)

/-- Two pages, and the bid of another user in between. -/
theorem caught_up_orders_two :
    ∃ (e₀ : Engine ℚ) (es : ℕ → Engine ℚ) (rs : ℕ → OrderRecords ℚ),
      Engine.init decimal128 exampleAssets [exampleConf 8] = some e₀ ∧
      Reading decimal128 e₀ 1 es (fun _ => betweenPages) ∧
      ∀ i info, (Change.applyAll (snapshot rs 1)
          (orderFeed 1 "BTCCNY" ((es 0).statics.since (es 1).statics))).find i = some info ↔
        (es 1).Booked "BTCCNY" 1 i info := by
  obtain ⟨e₀, es, rs, hinit, hread, hrs, hcheck⟩ := twoPages_spec onCmdOrderQuery
    (fun k => [.integer (1 : ℕ), .string "BTCCNY", .integer (k * 1 : ℕ), .integer (1 : ℕ)])
    (fun e e' _ r' => checkMarket e (fun m => ∀ i ∈ m.orders, i ∈ m.book (m.order i).side) &&
      checkMarket e' (fun m => ∀ i ∈ m.orders, i ∈ m.book (m.order i).side) &&
      decide (NoneFinished 1 "BTCCNY" (e.statics.since e'.statics)) && decide (r'.total ≤ 2))
    (by decide +kernel)
  rw [Bool.and_eq_true, Bool.and_eq_true, Bool.and_eq_true, decide_eq_true_eq, decide_eq_true_eq]
    at hcheck
  obtain ⟨⟨⟨hcheck, hcheck'⟩, hfinished⟩, htotal⟩ := hcheck
  have hstuck : ∀ {e : Engine ℚ}, checkMarket e
      (fun m => ∀ i ∈ m.orders, i ∈ m.book (m.order i).side) = true → e.NoneStuck "BTCCNY" := by
    intro e he m hm
    obtain ⟨m', hm', hbook⟩ := checkMarket_spec he
    obtain rfl := Option.some.inj (hm.symm.trans hm')
    exact of_decide_eq_true hbook
  refine ⟨e₀, es, rs, hinit, hread, caught_up_orders roundsDown_roundDown hinit hread (by norm_num)
    (by decide) (by norm_num) hrs htotal (fun k hk => ?_) hfinished run_nil⟩
  rcases Nat.le_one_iff_eq_zero_or_eq_one.mp hk with rfl | rfl
  · exact hstuck hcheck
  · exact hstuck hcheck'

end Engine

end ViabtcExchange
