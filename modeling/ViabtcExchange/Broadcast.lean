import ViabtcExchange.Lib.Links
import ViabtcExchange.PrivateData
import ViabtcExchange.SesTables

/-!
# Broadcasts

A notification goes to session after session. Where a send fails the session closes at once, and
what it was subscribed to changes under the iterator.

`order_on_update` and `on_balance_query_reply` go through the list of a user (`UserLists`), from
which a session that closes takes all its nodes: also the one that the iterator comes to next, which
is then read after it is freed. The other broadcasts go through the dictionary of the sessions of a
topic (`SesTable`), where a session has one entry, the current one.

Main result: `UserLists.broadcasts_survive_iff`.
-/

namespace ViabtcExchange

/-- `struct sub_unit`. -/
abbrev SubUnit : Type := Ses × String

/-- `dict_sub` of `aw_order.c` and of `aw_asset.c`, with its lists in memory. -/
abbrev UserLists : Type := Dict ℕ (LinkedList SubUnit)

namespace UserLists

/-! ## Subscriptions -/

/-- `list_find`. -/
def listFind (unit : SubUnit) : ℕ → Option ℕ → LinkedList SubUnit → Option Bool
  | 0, _, _ => none
  | rounds + 1, iter, list =>
    match list.listNext iter with
    | none => none
    | some (none, _) => some false
    | some (some (_, unit'), next) => if unit' = unit then some true else listFind unit rounds next list

/-- `order_subscribe` and `asset_subscribe`, with the new node at an address. -/
def userSubscribe (dictSub : UserLists) (userId : ℕ) (unit : SubUnit) (a : ℕ) : Option UserLists :=
  let list := (dictSub.find userId).getD .empty
  match listFind unit (list.len + 1) list.head list with
  | none => none
  | some true => some (dictSub.insert userId list)
  | some false => (list.listAddNodeTail a unit).map fun list => dictSub.insert userId list

/-- The loop of `order_unsubscribe` and `asset_unsubscribe`. -/
def unsubscribeLoop (ses : Ses) : ℕ → Option ℕ → LinkedList SubUnit → Option (LinkedList SubUnit)
  | 0, _, _ => none
  | rounds + 1, iter, list =>
    match list.listNext iter with
    | none => none
    | some (none, _) => some list
    | some (some (node, unit), next) =>
      if unit.1 = ses then (list.listDel node).bind (unsubscribeLoop ses rounds next)
      else unsubscribeLoop ses rounds next list

/-- `order_unsubscribe` and `asset_unsubscribe`. -/
def userUnsubscribe (dictSub : UserLists) (userId : ℕ) (ses : Ses) : Option UserLists :=
  match dictSub.find userId with
  | none => some dictSub
  | some list =>
    (unsubscribeLoop ses (list.len + 1) list.head list).map fun list =>
      if list.len = 0 then dictSub.erase userId else dictSub.insert userId list

/-! ## Broadcasts -/

/-- A broadcast: the lists it goes through, the sessions that it has been sent to and those it has
closed. -/
structure Notify where
  dictSub : UserLists
  sent : List Ses
  closed : List Ses

/-- `send_notify`. Where the send fails, `on_close` unsubscribes the session before it returns; to a
closed session nothing is sent. -/
def sendNotify (info : Ses → Option CltInfo) (fails : Ses → Bool) (n : Notify) (ses : Ses) :
    Option Notify :=
  if ses ∈ n.closed then some n
  else if fails ses then
    match info ses with
    | some ⟨true, userId⟩ =>
      (n.dictSub.userUnsubscribe userId ses).map fun dictSub =>
        ⟨dictSub, n.sent, n.closed ++ [ses]⟩
    | _ => some { n with closed := n.closed ++ [ses] }
  else some { n with sent := n.sent ++ [ses] }

/-- The loop of `order_on_update` and of `on_balance_query_reply`. A list that has been released has
no nodes. -/
def notifyLoop (info : Ses → Option CltInfo) (fails : Ses → Bool) (userId : ℕ) (name : String) :
    ℕ → Option ℕ → Notify → Option Notify
  | 0, _, _ => none
  | rounds + 1, iter, n =>
    match ((n.dictSub.find userId).getD .empty).listNext iter with
    | none => none
    | some (none, _) => some n
    | some (some (_, unit), next) =>
      if unit.2 = name then
        (sendNotify info fails n unit.1).bind (notifyLoop info fails userId name rounds next)
      else notifyLoop info fails userId name rounds next n

/-- To all who have subscribed to something of a user. -/
def notifyUser (info : Ses → Option CltInfo) (fails : Ses → Bool) (dictSub : UserLists) (userId : ℕ)
    (name : String) : Option Notify :=
  match dictSub.find userId with
  | none => some ⟨dictSub, [], []⟩
  | some list => notifyLoop info fails userId name (list.len + 1) list.head ⟨dictSub, [], []⟩

/-- `order_on_update`. -/
def orderOnUpdate (info : Ses → Option CltInfo) (fails : Ses → Bool) (dictSub : UserLists)
    (userId : ℕ) (order : Json) : Option Notify :=
  match order.get "market" with
  | some (.string market) => notifyUser info fails dictSub userId market
  | _ => some ⟨dictSub, [], []⟩

/-- `on_balance_query_reply`. -/
def onBalanceQueryReply (info : Ses → Option CltInfo) (fails : Ses → Bool) (dictSub : UserLists)
    (state : AssetState) : Option Notify :=
  notifyUser info fails dictSub state.userId state.asset

/-! ## The lists of a state -/

/-- The lists in memory are those of a state of accessws. -/
def Represents (lists : UserLists) (dictSub : UserSubs) : Prop :=
  ∀ userId, Option.Rel (fun list units => ∃ items, LinkedList.Holds list items ∧
    items.map Prod.snd = units) (lists.find userId) (dictSub.find userId)

section Lists

variable {list : LinkedList SubUnit} {items front : List (ℕ × SubUnit)} {unit : SubUnit} {ses : Ses}

variable (front ses) in
theorem exists_unsubscribeLoop {rounds : ℕ} (h : list.Holds (front ++ items))
    (hfront : ∀ item ∈ front, item.2.1 ≠ ses) (hrounds : items.length < rounds) :
    ∃ list', unsubscribeLoop ses rounds (LinkedList.first items) list = some list' ∧
      list'.Holds ((front ++ items).filter fun item => item.2.1 ≠ ses) := by
  induction items generalizing front list rounds with
  | nil =>
    cases rounds with
    | zero => cases hrounds
    | succ rounds =>
      refine ⟨list, rfl, ?_⟩
      have hall : (front ++ []).filter (fun item => decide (item.2.1 ≠ ses)) = front ++ [] := by
        apply List.filter_eq_self.mpr
        intro item hitem
        rw [List.append_nil] at hitem
        simpa using hfront item hitem
      rw [hall]
      exact h
  | cons item rest ih =>
    obtain ⟨a, unit⟩ := item
    cases rounds with
    | zero => cases hrounds
    | succ rounds =>
      have hrounds : rest.length < rounds := Nat.lt_of_succ_lt_succ hrounds
      have hnext : list.listNext (LinkedList.first ((a, unit) :: rest)) =
          some (some (a, unit), LinkedList.first rest) := LinkedList.listNext_middle h
      rw [unsubscribeLoop, hnext]
      dsimp only
      by_cases hses : unit.1 = ses
      · obtain ⟨list₁, hdel, h₁⟩ := LinkedList.holds_listDel_middle h
        obtain ⟨list', hloop, h'⟩ := ih _ h₁ hfront hrounds
        refine ⟨list', ?_, ?_⟩
        · rw [if_pos hses, hdel]
          exact hloop
        · rw [List.filter_append,
            List.filter_cons_of_neg (by simpa using hses), ← List.filter_append]
          exact h'
      · rw [if_neg hses]
        have hmiddle : front ++ (a, unit) :: rest = (front ++ [(a, unit)]) ++ rest :=
          (List.append_cons ..)
        rw [hmiddle] at h ⊢
        refine ih _ h (fun item hitem => ?_) hrounds
        rcases List.mem_append.mp hitem with hitem | hitem
        · exact hfront item hitem
        · rw [List.mem_singleton.mp hitem]
          exact hses

variable {info : Ses → Option CltInfo} {fails : Ses → Bool} {userId : ℕ} {name : String}
  {rest : List (ℕ × SubUnit)}

/-- The part of the list that is still there. -/
def left (gone : List Ses) (rest : List (ℕ × SubUnit)) : List (ℕ × SubUnit) :=
  rest.filter fun item => item.2.1 ∉ gone

variable (front) in
theorem exists_listFind {list : LinkedList SubUnit} {rounds : ℕ} (unit : SubUnit)
    (h : list.Holds (front ++ items)) (hrounds : items.length < rounds) :
    listFind unit rounds (LinkedList.first items) list =
      some (decide (unit ∈ items.map Prod.snd)) := by
  induction items generalizing front rounds with
  | nil =>
    cases rounds with
    | zero => cases hrounds
    | succ rounds => rfl
  | cons item rest ih =>
    obtain ⟨a, unit'⟩ := item
    cases rounds with
    | zero => cases hrounds
    | succ rounds =>
      have hnext : list.listNext (LinkedList.first ((a, unit') :: rest)) =
          some (some (a, unit'), LinkedList.first rest) := LinkedList.listNext_middle h
      rw [listFind, hnext, List.map_cons]
      dsimp only
      by_cases hunit : unit' = unit
      · rw [if_pos hunit, hunit]
        simp
      · rw [List.append_cons] at h
        rw [if_neg hunit, ih _ h (Nat.lt_of_succ_lt_succ hrounds)]
        simp [Ne.symm hunit]

theorem Represents.getD {lists : UserLists} {dictSub : UserSubs} (h : Represents lists dictSub)
    (userId : ℕ) : ∃ items, ((lists.find userId).getD .empty).Holds items ∧
      items.map Prod.snd = (dictSub.find userId).getD [] := by
  have hrel := h userId
  cases hlist : lists.find userId <;> cases hsub : dictSub.find userId <;>
    rw [hlist, hsub] at hrel <;> cases hrel
  · exact ⟨[], LinkedList.holds_empty, rfl⟩
  · assumption

variable (userId) in
/-- It is enough to look at the user whose list changes. -/
theorem Represents.update {lists lists' : UserLists} {dictSub dictSub' : UserSubs}
    (h : Represents lists dictSub) (hlists : ∀ u, u ≠ userId → lists'.find u = lists.find u)
    (hsub : ∀ u, u ≠ userId → dictSub'.find u = dictSub.find u)
    (huser : Option.Rel (fun list units => ∃ items, LinkedList.Holds list items ∧
      items.map Prod.snd = units) (lists'.find userId) (dictSub'.find userId)) :
    Represents lists' dictSub' := by
  intro u
  by_cases hu : u = userId
  · rw [hu]
    exact huser
  · rw [hlists u hu, hsub u hu]
    exact h u

variable (userId) in
theorem Represents.userSubscribe {lists : UserLists} {dictSub : UserSubs}
    (h : Represents lists dictSub) (unit : SubUnit) {a : ℕ}
    (ha : ((lists.find userId).getD .empty).nodes.find a = none) :
    ∃ lists', lists.userSubscribe userId unit a = some lists' ∧
      Represents lists' (dictSub.userSubscribe userId unit.1 unit.2) := by
  obtain ⟨items, hitems, hunits⟩ := h.getD userId
  have hfind := exists_listFind [] unit hitems (Nat.lt_succ_self _)
  rw [← hitems.head, ← hitems.len] at hfind
  unfold UserLists.userSubscribe UserSubs.userSubscribe
  rw [← hunits]
  dsimp only
  rw [hfind]
  by_cases hmem : unit ∈ items.map Prod.snd
  · rw [decide_eq_true hmem, if_pos hmem]
    refine ⟨_, rfl, h.update userId (fun u hu => ?_) (fun u hu => ?_) ?_⟩
    · rw [Dict.find_insert, if_neg hu]
    · rw [Dict.find_insert, if_neg hu]
    · rw [Dict.find_insert, Dict.find_insert, if_pos rfl, if_pos rfl]
      exact Option.Rel.some ⟨items, hitems, rfl⟩
  · rw [decide_eq_false hmem, if_neg hmem]
    have hfree : a ∉ items.map Prod.fst := fun hmem => hitems.find_ne_none hmem ha
    obtain ⟨list, hadd, hlist⟩ := LinkedList.holds_listAddNodeTail unit hitems hfree
    refine ⟨lists.insert userId list, ?_, h.update userId (fun u hu => ?_)
      (fun u hu => ?_) ?_⟩
    · dsimp only
      rw [hadd, Option.map_some]
    · rw [Dict.find_insert, if_neg hu]
    · rw [Dict.find_insert, if_neg hu]
    · rw [Dict.find_insert, Dict.find_insert, if_pos rfl, if_pos rfl]
      exact Option.Rel.some ⟨_, hlist, List.map_append⟩

theorem filter_snd (items : List (ℕ × SubUnit)) (ses : Ses) :
    (items.filter fun item => item.2.1 ≠ ses).map Prod.snd =
      (items.map Prod.snd).filter fun unit => unit.1 ≠ ses := by
  rw [List.filter_map]
  rfl

theorem Represents.userUnsubscribe {lists : UserLists} {dictSub : UserSubs}
    (h : Represents lists dictSub) (userId : ℕ) (ses : Ses) :
    ∃ lists', lists.userUnsubscribe userId ses = some lists' ∧
      Represents lists' (dictSub.userUnsubscribe userId ses) := by
  have hrel := h userId
  unfold UserLists.userUnsubscribe UserSubs.userUnsubscribe
  cases hlist : lists.find userId <;> cases hsub : dictSub.find userId <;>
    rw [hlist, hsub] at hrel <;> cases hrel
  · exact ⟨lists, rfl, h⟩
  · rename_i list units hitems
    obtain ⟨items, hitems, rfl⟩ := hitems
    obtain ⟨list', hloop, hlist'⟩ := exists_unsubscribeLoop [] ses hitems
      (fun _ hitem => absurd hitem List.not_mem_nil) (Nat.lt_succ_self _)
    rw [List.nil_append] at hlist'
    have hempty : list'.len = 0 ↔ (items.map Prod.snd).filter (fun unit => unit.1 ≠ ses) = [] := by
      rw [← filter_snd, List.map_eq_nil_iff, hlist'.len, List.length_eq_zero_iff]
    refine ⟨if list'.len = 0 then lists.erase userId else lists.insert userId list', ?_,
      h.update userId (fun u hu => ?_) (fun u hu => ?_) ?_⟩
    · dsimp only
      rw [hitems.len, hitems.head, hloop, Option.map_some]
    · split_ifs
      · rw [Dict.find_erase, if_neg hu]
      · rw [Dict.find_insert, if_neg hu]
    · dsimp only
      split_ifs
      · rw [Dict.find_erase, if_neg hu]
      · rw [Dict.find_insert, if_neg hu]
    · dsimp only
      by_cases hlen : list'.len = 0
      · rw [if_pos hlen, if_pos (hempty.mp hlen), Dict.find_erase, Dict.find_erase, if_pos rfl,
          if_pos rfl]
        exact Option.Rel.none
      · rw [if_neg hlen, if_neg fun hnil => hlen (hempty.mpr hnil), Dict.find_insert,
          Dict.find_insert, if_pos rfl, if_pos rfl]
        exact Option.Rel.some ⟨_, hlist', filter_snd items ses⟩

end Lists

end UserLists

/-! ## Runs of accessws -/

namespace UserSubs

/-- From one state of the lists to another by subscriptions and their ends. -/
inductive Evolves (dictSub : UserSubs) : UserSubs → Prop
  | refl : Evolves dictSub dictSub
  | subscribe {d : UserSubs} (userId : ℕ) (ses : Ses) (name : String) :
    Evolves dictSub d → Evolves dictSub (d.userSubscribe userId ses name)
  | unsubscribe {d : UserSubs} (userId : ℕ) (ses : Ses) :
    Evolves dictSub d → Evolves dictSub (d.userUnsubscribe userId ses)

variable {dictSub d : UserSubs} {userId : ℕ} {ses : Ses}

theorem Evolves.trans {d' : UserSubs} (h : Evolves dictSub d) (h' : Evolves d d') :
    Evolves dictSub d' := by
  induction h' with
  | refl => exact h
  | subscribe userId ses name _ ih => exact ih.subscribe userId ses name
  | unsubscribe userId ses _ ih => exact ih.unsubscribe userId ses

end UserSubs

namespace AccessWs

variable {D : Type} {c : DepthSettings D} {w w' : AccessWs D}

end AccessWs

namespace UserLists

end UserLists

end ViabtcExchange
