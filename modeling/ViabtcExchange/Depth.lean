import ViabtcExchange.DealsStream
import ViabtcExchange.Load
import ViabtcExchange.Lib.SortedDiff

/-!
# The depth of a market, as subscribers get it (`aw_depth.c`)

accessws keeps the last depth that it sent for each market, interval and limit. When a reply differs
from it, the subscribers get what changed, and once a minute all of it.

What a subscriber makes of this is `DepthBook`: it takes a clean depth as it is, and otherwise puts
and drops prices and keeps the best of each side. `best_getListDiff` says that this gives the side
of the reply. The units of a depth are lists of a price and an amount, both texts; a change that
accessws makes up itself has the number as it prints it (`DiffUnit.gone`).
-/

namespace ViabtcExchange

variable {D : Type}

/-- `CLEAN_INTERVAL`. -/
def cleanInterval : ℤ := 60

structure DepthSettings (D : Type) where
  mpd : Mpd D
  depthLimit : List ℤ
  depthMerge : List D

/-- `struct depth_key`. -/
structure DepthKey where
  market : String
  interval : String
  limit : ℕ
deriving DecidableEq

/-- `struct depth_val`, but for its sessions. -/
structure DepthVal where
  last : Option Json
  lastClean : ℤ

/-- `dict_depth`. -/
abbrev AwDepth : Type := Topics Ses DepthKey DepthVal

/-! ## What changed -/

/-- An entry of a diff: a unit of one of the lists, or the price of one that is gone, with the
amount "0". -/
inductive DiffUnit (D : Type)
  | copy (unit : Json)
  | gone (price : D)

/-- Both texts of a unit. -/
def unitTexts : Json → Option (String × String)
  | .array (.string price :: .string amount :: _) => some (price, amount)
  | _ => none

def Json.elements : Json → List Json
  | .array vs => vs
  | _ => []

section Diff

variable (mpd : Mpd D)

/-- Price and amount of a unit. -/
def readUnit (unit : Json) : Option (D × D) := do
  let (price, amount) ← unitTexts unit
  return (← mpd.decimal price 0, ← mpd.decimal amount 0)

/-- The first loop of `get_list_diff`, with what is left of both lists. `none` is an error. -/
def listDiffLoop (side : ℤ) :
    List Json → List Json → Option (List (DiffUnit D) × List Json × List Json)
  | [], list2 => some ([], [], list2)
  | unit1 :: list1, [] => some ([], unit1 :: list1, [])
  | unit1 :: list1, unit2 :: list2 =>
    match readUnit mpd unit1, readUnit mpd unit2 with
    | some (price1, amount1), some (price2, amount2) =>
      let cmp := mpd.cmp price1 price2 * side
      if cmp = 0 then
        (listDiffLoop side list1 list2).map fun (diff, rest) =>
          (if mpd.cmp amount1 amount2 = 0 then diff else .copy unit2 :: diff, rest)
      else if cmp > 0 then
        (listDiffLoop side (unit1 :: list1) list2).map fun (diff, rest) =>
          (.copy unit2 :: diff, rest)
      else
        (listDiffLoop side list1 (unit2 :: list2)).map fun (diff, rest) =>
          (.gone price1 :: diff, rest)
    | _, _ => none
termination_by list1 list2 => list1.length + list2.length

/-- What the second loop of `get_list_diff` makes of a unit. -/
def goneUnit (unit : Json) : Option (DiffUnit D) :=
  (unitTexts unit).map fun (price, _) => .copy (.array [.string price, .string "0"])

/-- The second loop and the third. -/
def listDiffRest (few : Bool) (list1 list2 : List Json) : Option (List (DiffUnit D)) :=
  (if few then list1.mapM goneUnit else some []).map fun gone => gone ++ list2.map .copy

def getListDiff (list1 list2 : Option Json) (limit : ℕ) (side : ℤ) : Option (List (DiffUnit D)) :=
  match list1, list2 with
  | some list1, some list2 =>
    ((listDiffLoop mpd side list1.elements list2.elements).bind fun (diff, rest1, rest2) =>
      (listDiffRest (list2.elements.length < limit) rest1 rest2).map (diff ++ ·)).filter
        fun diff => !diff.isEmpty
  | _, _ => none

/-- The diff of a depth. -/
structure DepthDiff (D : Type) where
  asks : Option (List (DiffUnit D))
  bids : Option (List (DiffUnit D))

def getDepthDiff (first second : Json) (limit : ℕ) : Option (DepthDiff D) :=
  let asks := getListDiff mpd (first.get "asks") (second.get "asks") limit 1
  let bids := getListDiff mpd (first.get "bids") (second.get "bids") limit (-1)
  if asks.isNone && bids.isNone then none else some ⟨asks, bids⟩

end Diff

/-! ## Subscriptions -/

/-- The params of a `depth.update`, but for the market. -/
inductive DepthUpdate (D : Type)
  | clean (result : Json)
  | diff (diff : DepthDiff D)

namespace AwDepth

variable (c : DepthSettings D) (dictDepth : AwDepth)

/-- `on_market_depth_reply`, with what is broadcast, and to whom. -/
def onMarketDepthReply (key : DepthKey) (result : Json) (now : ℤ) :
    AwDepth × Option (Finset Ses × DepthUpdate D) :=
  match dictDepth.find key with
  | none => (dictDepth, none)
  | some obj =>
    match obj.val.last with
    | none =>
      (dictDepth.insert key { obj with val := ⟨some result, now⟩ },
        some (obj.sessions, .clean result))
    | some last =>
      match getDepthDiff c.mpd last result key.limit with
      | none => (dictDepth, none)
      | some diff =>
        if now - obj.val.lastClean ≥ cleanInterval then
          (dictDepth.insert key { obj with val := ⟨some result, now⟩ },
            some (obj.sessions, .clean result))
        else
          (dictDepth.insert key { obj with val := ⟨some result, obj.val.lastClean⟩ },
            some (obj.sessions, .diff diff))

def isGoodLimit (limit : ℤ) : Bool := c.depthLimit.contains limit

def isGoodInterval (interval : String) : Bool :=
  match c.mpd.decimal interval 0 with
  | none => false
  | some merge => c.depthMerge.any fun good => c.mpd.cmp good merge = 0

/-- `depth_subscribe`. `none` is -1. -/
def depthSubscribe (ses : Ses) (key : DepthKey) : Option AwDepth :=
  if isGoodLimit c key.limit && isGoodInterval c key.interval then
    some (dictDepth.subscribe ses key ⟨none, 0⟩)
  else none

/-- `depth_send_clean`: what is sent, if anything is. -/
def depthSendClean (key : DepthKey) : Option Json :=
  (dictDepth.find key).bind fun obj => obj.val.last

/-- The three arguments of `on_method_depth_subscribe`. -/
def depthParams (params : List Json) : Option DepthKey :=
  match params with
  | [market, limit, interval] =>
    match marketParam market, Json.stringValue (some interval) with
    | some market, some interval =>
      let limit := toInt32 (Json.integerValue (some limit))
      if limit ≤ 0 ∨ interval.utf8ByteSize ≥ 16 then none
      else some ⟨market, interval, limit.toNat⟩
    | _, _ => none
  | _ => none

/-- `on_method_depth_subscribe`, with what the session subscribed to, if it did. -/
def onMethodDepthSubscribe (ses : Ses) (params : List Json) : AwDepth × Option DepthKey :=
  match depthParams params with
  | none => (dictDepth, none)
  | some key =>
    match depthSubscribe c (dictDepth.unsubscribe ses) ses key with
    | none => (dictDepth.unsubscribe ses, none)
    | some dictDepth => (dictDepth, some key)

end AwDepth

/-! ## The book of a subscriber -/

/-- Amounts by price. -/
structure DepthBook where
  asks : Dict ℚ ℚ
  bids : Dict ℚ ℚ

/-- Asks go up from the best, bids go down. -/
def before (side : ℤ) (price price' : ℚ) : Prop := side * price < side * price'

instance (side : ℤ) : DecidableRel (before side) := fun _ _ =>
  inferInstanceAs (Decidable (_ < _))

section Reader

variable (mpd : Mpd D)

/-- How a subscriber reads an entry of a diff. -/
def readChange : DiffUnit D → Option (Change D D)
  | .gone price => some (.drop price)
  | .copy unit => do
    let (priceText, amountText) ← unitTexts unit
    let price ← mpd.decimal priceText 0
    if amountText = "0" then return .drop price else return .put price (← mpd.decimal amountText 0)

/-- The units of one side of a depth, as numbers. -/
def sideEntries (side : Option Json) : List (D × D) :=
  ((side.map Json.elements).getD []).filterMap (readUnit mpd)

end Reader

/-- The book after a clean depth. -/
def bookOf (mpd : Mpd ℚ) (result : Json) : DepthBook :=
  ⟨Change.ofEntries (sideEntries mpd (result.get "asks")),
    Change.ofEntries (sideEntries mpd (result.get "bids"))⟩

/-- One side after a diff. -/
def applySide (mpd : Mpd ℚ) (side : ℤ) (limit : ℕ) (book : Dict ℚ ℚ)
    (diff : Option (List (DiffUnit ℚ))) : Dict ℚ ℚ :=
  Change.best (before side) limit
    (Change.applyAll book ((diff.getD []).filterMap (readChange mpd)))

def DepthBook.update (mpd : Mpd ℚ) (limit : ℕ) (book : DepthBook) : DepthUpdate ℚ → DepthBook
  | .clean result => bookOf mpd result
  | .diff diff =>
    ⟨applySide mpd 1 limit book.asks diff.asks, applySide mpd (-1) limit book.bids diff.bids⟩

/-- A side of a depth as the engine answers it: at most `limit` units, each with a price and an
amount, in the order of the prices. -/
structure GoodSide (mpd : Mpd ℚ) (side : ℤ) (limit : ℕ) (list : Option Json) : Prop where
  array : ∃ units, list = some (.array units)
  numbers : ∀ unit ∈ (list.map Json.elements).getD [], (readUnit mpd unit).isSome
  amounts : ∀ unit ∈ (list.map Json.elements).getD [], (unitTexts unit).map Prod.snd ≠ some "0"
  sorted : Change.Sorted (before side) (sideEntries mpd list)
  size : ((list.map Json.elements).getD []).length ≤ limit

structure GoodDepth (mpd : Mpd ℚ) (limit : ℕ) (result : Json) : Prop where
  asks : GoodSide mpd 1 limit (result.get "asks")
  bids : GoodSide mpd (-1) limit (result.get "bids")

/-! ## What a diff says -/

theorem before_order {side : ℤ} (hside : side ≠ 0) : IsStrictTotalOrder ℚ (before side) where
  trichotomous p q hpq hqp := by
    have heq := le_antisymm (not_lt.mp hqp) (not_lt.mp hpq)
    exact mul_left_cancel₀ (Int.cast_ne_zero.mpr hside) heq
  irrefl p := lt_irrefl _
  trans p q r := lt_trans

section Spec

variable {round : ℚ → ℚ} {side : ℤ} (hside : side = 1 ∨ side = -1)

include hside

theorem cmp_side_eq_zero (p q : ℚ) : (ratMpd round).cmp p q * side = 0 ↔ p = q := by
  have hne : side ≠ 0 := by omega
  rw [mul_eq_zero, or_iff_left hne]
  show (if p < q then (-1 : ℤ) else if p = q then 0 else 1) = 0 ↔ p = q
  split_ifs with hlt heq
  · exact iff_of_false (by decide) hlt.ne
  · exact iff_of_true rfl heq
  · exact iff_of_false (by decide) heq

theorem cmp_side_pos {p q : ℚ} (hne : p ≠ q) :
    (ratMpd round).cmp p q * side > 0 ↔ before side q p := by
  have hcmp : (ratMpd round).cmp p q = if p < q then -1 else 1 := by
    show (if p < q then (-1 : ℤ) else if p = q then 0 else 1) = _
    rw [if_neg hne]
  rw [hcmp]
  unfold before
  have hlt : ¬p < q ↔ q < p := ⟨fun h => lt_of_le_of_ne (not_lt.mp h) hne.symm, fun h => h.not_gt⟩
  rcases hside with rfl | rfl
  · split_ifs with h
    · simp [h.le]
    · simpa using hlt.mp h
  · split_ifs with h
    · simpa using h
    · simpa using (hlt.mp h).le

omit hside

theorem texts_of_readUnit {mpd : Mpd D} {unit : Json} {e : D × D}
    (hread : readUnit mpd unit = some e) : ∃ price amount, unitTexts unit = some (price, amount) ∧
      mpd.decimal price 0 = some e.1 ∧ mpd.decimal amount 0 = some e.2 := by
  unfold readUnit at hread
  obtain ⟨⟨price, amount⟩, htexts, hread⟩ := Option.bind_eq_some_iff.mp hread
  obtain ⟨p, hp, hread⟩ := Option.bind_eq_some_iff.mp hread
  obtain ⟨a, ha, hread⟩ := Option.bind_eq_some_iff.mp hread
  obtain rfl := Option.some.inj hread
  exact ⟨price, amount, htexts, hp, ha⟩

/-- A unit that is passed on is put. -/
theorem readChange_copy {mpd : Mpd D} {unit : Json} {e : D × D} (hread : readUnit mpd unit = some e)
    (hamount : (unitTexts unit).map Prod.snd ≠ some "0") :
    readChange mpd (.copy unit) = some (.put e.1 e.2) := by
  obtain ⟨price, amount, htexts, hp, ha⟩ := texts_of_readUnit hread
  rw [htexts] at hamount
  have hne : amount ≠ "0" := fun h => hamount (congrArg some h)
  simp [readChange, htexts, hp, ha, hne]

/-- A unit with the amount "0" in place of its own is dropped. -/
theorem readChange_goneUnit {mpd : Mpd D} {unit : Json} {e : D × D}
    (hread : readUnit mpd unit = some e) :
    ∃ gone, goneUnit unit = some gone ∧ readChange mpd gone = some (.drop e.1) := by
  obtain ⟨price, amount, htexts, hp, -⟩ := texts_of_readUnit hread
  refine ⟨.copy (.array [.string price, .string "0"]), ?_, ?_⟩
  · unfold goneUnit
    rw [htexts]
    rfl
  · simp [readChange, unitTexts, hp]

theorem readChange_copies {mpd : Mpd D} {list : List Json}
    (hread : ∀ unit ∈ list, (readUnit mpd unit).isSome)
    (hamount : ∀ unit ∈ list, (unitTexts unit).map Prod.snd ≠ some "0") :
    (list.map DiffUnit.copy).map (readChange mpd) =
      ((list.filterMap (readUnit mpd)).map fun e => Change.put e.1 e.2).map some := by
  induction list with
  | nil => rfl
  | cons unit list ih =>
    obtain ⟨e, he⟩ := Option.isSome_iff_exists.mp (hread unit (List.mem_cons_self ..))
    rw [List.filterMap_cons_some he, List.map_cons, List.map_cons, List.map_cons, List.map_cons,
      readChange_copy he (hamount unit (List.mem_cons_self ..)),
      ih (fun u hu => hread u (List.mem_cons_of_mem _ hu)) fun u hu =>
        hamount u (List.mem_cons_of_mem _ hu)]

theorem readChange_goneUnits {mpd : Mpd D} {list : List Json}
    (hread : ∀ unit ∈ list, (readUnit mpd unit).isSome) :
    ∃ gone, list.mapM goneUnit = some gone ∧ gone.map (readChange mpd) =
      ((list.filterMap (readUnit mpd)).map fun e => Change.drop e.1).map some := by
  induction list with
  | nil => exact ⟨[], rfl, rfl⟩
  | cons unit list ih =>
    obtain ⟨e, he⟩ := Option.isSome_iff_exists.mp (hread unit (List.mem_cons_self ..))
    obtain ⟨gone, hgone, hchange⟩ := @readChange_goneUnit D mpd unit e he
    obtain ⟨rest, hrest, hchanges⟩ := ih fun u hu => hread u (List.mem_cons_of_mem _ hu)
    refine ⟨gone :: rest, ?_, ?_⟩
    · rw [List.mapM_cons, hgone, hrest]
      rfl
    · rw [List.filterMap_cons_some he, List.map_cons, List.map_cons, List.map_cons, hchange,
        hchanges]

/-- What is left of the lists after the first loop, when one of them is empty. -/
theorem listDiffRest_spec {mpd : Mpd ℚ} (side : ℤ) (few : Bool) {list1 list2 : List Json}
    (hempty : list1 = [] ∨ list2 = [])
    (hread1 : ∀ unit ∈ list1, (readUnit mpd unit).isSome)
    (hread2 : ∀ unit ∈ list2, (readUnit mpd unit).isSome)
    (hamount : ∀ unit ∈ list2, (unitTexts unit).map Prod.snd ≠ some "0") :
    ∃ tail, listDiffRest few list1 list2 = some tail ∧ tail.map (readChange mpd) =
      (Change.diff (before side) (!few) (list1.filterMap (readUnit mpd))
        (list2.filterMap (readUnit mpd))).map some := by
  obtain ⟨gone, hgone, hchange⟩ := readChange_goneUnits hread1
  have hcopies := readChange_copies hread2 hamount
  unfold listDiffRest
  rcases hempty with rfl | rfl
  · refine ⟨list2.map .copy, ?_, ?_⟩
    · cases few <;> rfl
    · rw [hcopies, List.filterMap_nil, Change.diff]
  · cases few with
    | true =>
      refine ⟨gone, ?_, ?_⟩
      · rw [if_pos rfl, hgone, Option.map_some, List.map_nil, List.append_nil]
      · rw [hchange, List.filterMap_nil]
        cases list1.filterMap (readUnit mpd) with
        | nil => rw [Change.diff]; rfl
        | cons e l => rw [Change.diff]; rfl
    | false =>
      refine ⟨[], rfl, ?_⟩
      rw [List.filterMap_nil]
      cases list1.filterMap (readUnit mpd) with
      | nil => rw [Change.diff]; rfl
      | cons e l => rw [Change.diff]; rfl

include hside

/-- **The diff of two lists that can be read is the diff of what they say.** -/
theorem listDiff_spec (few : Bool) {list1 list2 : List Json}
    (hread1 : ∀ unit ∈ list1, (readUnit (ratMpd round) unit).isSome)
    (hread2 : ∀ unit ∈ list2, (readUnit (ratMpd round) unit).isSome)
    (hamount : ∀ unit ∈ list2, (unitTexts unit).map Prod.snd ≠ some "0") :
    ∃ diff rest1 rest2 tail,
      listDiffLoop (ratMpd round) side list1 list2 = some (diff, rest1, rest2) ∧
      listDiffRest few rest1 rest2 = some tail ∧
      (diff ++ tail).map (readChange (ratMpd round)) =
        (Change.diff (before side) (!few) (list1.filterMap (readUnit (ratMpd round)))
          (list2.filterMap (readUnit (ratMpd round)))).map some := by
  induction list1, list2 using listDiffLoop.induct (ratMpd round) side with
  | case1 list2 =>
    obtain ⟨tail, htail, hchange⟩ := listDiffRest_spec side few (Or.inl rfl) hread1 hread2 hamount
    exact ⟨[], [], list2, tail, by rw [listDiffLoop], htail, hchange⟩
  | case2 unit1 list1 =>
    obtain ⟨tail, htail, hchange⟩ := listDiffRest_spec side few (Or.inr rfl) hread1 hread2 hamount
    exact ⟨[], unit1 :: list1, [], tail, by rw [listDiffLoop], htail, hchange⟩
  | case3 unit1 list1 unit2 list2 price1 amount1 price2 amount2 h2 h1 cmp hcmp ih =>
    obtain ⟨diff, rest1, rest2, tail, hloop, htail, hchange⟩ := ih
      (fun u hu => hread1 u (List.mem_cons_of_mem _ hu))
      (fun u hu => hread2 u (List.mem_cons_of_mem _ hu))
      (fun u hu => hamount u (List.mem_cons_of_mem _ hu))
    have hprice : price1 = price2 := (cmp_side_eq_zero hside price1 price2).mp hcmp
    rw [List.filterMap_cons_some h1, List.filterMap_cons_some h2, Change.diff, if_pos hprice,
      List.map_append, ← hchange]
    refine ⟨if (ratMpd round).cmp amount1 amount2 = 0 then diff else .copy unit2 :: diff, rest1,
      rest2, tail, ?_, htail, ?_⟩
    · rw [listDiffLoop, h1, h2]
      simp only
      rw [if_pos hcmp, hloop]
      rfl
    · have hvalue : (ratMpd round).cmp amount1 amount2 = 0 ↔ amount1 = amount2 := by
        have hone := @cmp_side_eq_zero round 1 (Or.inl rfl) amount1 amount2
        rwa [mul_one] at hone
      unfold Change.amend
      by_cases hsame : amount1 = amount2
      · rw [if_pos (hvalue.mpr hsame), if_pos hsame]
        rfl
      · rw [if_neg fun h => hsame (hvalue.mp h), if_neg hsame, List.cons_append, List.map_cons,
          readChange_copy h2 (hamount unit2 (List.mem_cons_self ..))]
        rfl
  | case4 unit1 list1 unit2 list2 price1 amount1 price2 amount2 h2 h1 cmp hcmp hpos ih =>
    obtain ⟨diff, rest1, rest2, tail, hloop, htail, hchange⟩ := ih hread1
      (fun u hu => hread2 u (List.mem_cons_of_mem _ hu))
      (fun u hu => hamount u (List.mem_cons_of_mem _ hu))
    have hne : price1 ≠ price2 := fun h => hcmp ((cmp_side_eq_zero hside price1 price2).mpr h)
    have hbefore : before side price2 price1 := (cmp_side_pos hside hne).mp hpos
    refine ⟨.copy unit2 :: diff, rest1, rest2, tail, ?_, htail, ?_⟩
    · rw [listDiffLoop, h1, h2]
      simp only
      rw [if_neg hcmp, if_pos hpos, hloop]
      rfl
    · rw [List.filterMap_cons_some h1, List.filterMap_cons_some h2, Change.diff, if_neg hne,
        if_pos hbefore, List.cons_append, List.map_cons, List.map_cons, hchange,
        readChange_copy h2 (hamount unit2 (List.mem_cons_self ..)), List.filterMap_cons_some h1]
  | case5 unit1 list1 unit2 list2 price1 amount1 price2 amount2 h2 h1 cmp hcmp hpos ih =>
    obtain ⟨diff, rest1, rest2, tail, hloop, htail, hchange⟩ := ih
      (fun u hu => hread1 u (List.mem_cons_of_mem _ hu)) hread2 hamount
    have hne : price1 ≠ price2 := fun h => hcmp ((cmp_side_eq_zero hside price1 price2).mpr h)
    have hbefore : ¬before side price2 price1 := fun h => hpos ((cmp_side_pos hside hne).mpr h)
    refine ⟨.gone price1 :: diff, rest1, rest2, tail, ?_, htail, ?_⟩
    · rw [listDiffLoop, h1, h2]
      simp only
      rw [if_neg hcmp, if_neg hpos, hloop]
      rfl
    · rw [List.filterMap_cons_some h1, List.filterMap_cons_some h2, Change.diff, if_neg hne,
        if_neg hbefore, List.cons_append, List.map_cons, List.map_cons, hchange,
        List.filterMap_cons_some h2]
      rfl
  | case6 unit1 list1 unit2 list2 hnone =>
    obtain ⟨e1, h1⟩ := Option.isSome_iff_exists.mp (hread1 unit1 (List.mem_cons_self ..))
    obtain ⟨e2, h2⟩ := Option.isSome_iff_exists.mp (hread2 unit2 (List.mem_cons_self ..))
    exact (hnone _ _ _ _ h1 h2).elim

omit hside in
/-- What a reader makes of units that all can be read. -/
theorem filterMap_readChange {mpd : Mpd D} {diff : List (DiffUnit D)} {changes : List (Change D D)}
    (h : diff.map (readChange mpd) = changes.map some) :
    diff.filterMap (readChange mpd) = changes := by
  have hids := congrArg (List.filterMap id) h
  rwa [List.filterMap_map, List.filterMap_map, Function.id_comp, Function.id_comp,
    List.filterMap_some] at hids

omit hside in
theorem GoodSide.length {mpd : Mpd ℚ} {limit : ℕ} {list : Option Json}
    (h : GoodSide mpd side limit list) :
    (sideEntries mpd list).length = ((list.map Json.elements).getD []).length :=
  List.filterMap_length_eq_length.mpr h.numbers

variable {limit : ℕ} {list1 list2 : Option Json}
  (h1 : GoodSide (ratMpd round) side limit list1) (h2 : GoodSide (ratMpd round) side limit list2)

include h1 h2

/-- The diff of two good lists, unit by unit: the list is `NULL` when it is empty. -/
theorem getListDiff_eq : ∃ full : Bool,
    (full = true ↔ limit ≤ (sideEntries (ratMpd round) list2).length) ∧
    ∃ diff, getListDiff (ratMpd round) list1 list2 limit side =
        (some diff).filter (fun diff => !diff.isEmpty) ∧
      diff.map (readChange (ratMpd round)) = (Change.diff (before side) full
        (sideEntries (ratMpd round) list1) (sideEntries (ratMpd round) list2)).map some := by
  obtain ⟨few, hfew⟩ : ∃ few, few = decide (((list2.map Json.elements).getD []).length < limit) :=
    ⟨_, rfl⟩
  obtain ⟨diff, rest1, rest2, tail, hloop, htail, hchange⟩ :=
    listDiff_spec hside few h1.numbers h2.numbers h2.amounts
  refine ⟨!few, ?_, diff ++ tail, ?_, hchange⟩
  · rw [h2.length]
    simp [hfew]
  · obtain ⟨units1, rfl⟩ := h1.array
    obtain ⟨units2, rfl⟩ := h2.array
    simp only [Option.map_some, Option.getD_some] at hloop hfew
    unfold getListDiff
    simp only [hloop, ← hfew, htail, Option.bind_some, Option.map_some]

/-- What a reader makes of the diff of two good lists. -/
theorem getListDiff_spec : ∃ full : Bool,
    (full = true → limit ≤ (sideEntries (ratMpd round) list2).length) ∧
    (((getListDiff (ratMpd round) list1 list2 limit side).getD []).filterMap
      (readChange (ratMpd round)) = Change.diff (before side) full
        (sideEntries (ratMpd round) list1) (sideEntries (ratMpd round) list2)) ∧
    (getListDiff (ratMpd round) list1 list2 limit side = none →
      Change.diff (before side) full (sideEntries (ratMpd round) list1)
        (sideEntries (ratMpd round) list2) = []) := by
  obtain ⟨full, hfull, diff, hdiff, hchange⟩ := getListDiff_eq hside h1 h2
  refine ⟨full, hfull.mp, ?_, ?_⟩
  · rw [hdiff, ← filterMap_readChange hchange]
    cases diff <;> rfl
  · intro hnone
    rw [hdiff] at hnone
    have hnil : diff = [] := by
      cases diff with
      | nil => rfl
      | cons first rest => cases hnone
    rw [hnil, List.map_nil] at hchange
    exact List.map_eq_nil_iff.mp hchange.symm

/-- **The diff makes one side of the other.** -/
theorem applySide_getListDiff :
    applySide (ratMpd round) side limit (Change.ofEntries (sideEntries (ratMpd round) list1))
      (getListDiff (ratMpd round) list1 list2 limit side) =
        Change.ofEntries (sideEntries (ratMpd round) list2) := by
  have horder : IsStrictTotalOrder ℚ (before side) := before_order (by omega)
  obtain ⟨full, hfull, hchanges, -⟩ := getListDiff_spec hside h1 h2
  unfold applySide
  rw [hchanges]
  exact Change.best_applyAll_diff h1.sorted h2.sorted (h2.length ▸ h2.size) hfull

/-- Where there is no diff, there is no difference. -/
theorem side_eq_of_getListDiff_none
    (hnone : getListDiff (ratMpd round) list1 list2 limit side = none) :
    Change.ofEntries (sideEntries (ratMpd round) list1) =
      Change.ofEntries (sideEntries (ratMpd round) list2) := by
  have horder : IsStrictTotalOrder ℚ (before side) := before_order (by omega)
  obtain ⟨full, hfull, -, hnil⟩ := getListDiff_spec hside h1 h2
  exact Change.ofEntries_eq_of_diff_nil h1.sorted h2.sorted (h1.length ▸ h1.size)
    (h2.length ▸ h2.size) hfull (hnil hnone)

end Spec

section Book

variable {round : ℚ → ℚ} {limit : ℕ} {last result : Json} (h1 : GoodDepth (ratMpd round) limit last)
  (h2 : GoodDepth (ratMpd round) limit result)

include h1 h2

/-- **The diff makes the book of the last depth that of the next.** -/
theorem update_getDepthDiff {diff : DepthDiff ℚ}
    (hdiff : getDepthDiff (ratMpd round) last result limit = some diff) :
    (bookOf (ratMpd round) last).update (ratMpd round) limit (.diff diff) =
      bookOf (ratMpd round) result := by
  unfold getDepthDiff at hdiff
  dsimp only at hdiff
  split_ifs at hdiff
  obtain rfl := Option.some.inj hdiff
  unfold DepthBook.update bookOf
  dsimp only
  rw [applySide_getListDiff (Or.inl rfl) h1.asks h2.asks,
    applySide_getListDiff (Or.inr rfl) h1.bids h2.bids]

theorem bookOf_eq_of_getDepthDiff_none
    (hnone : getDepthDiff (ratMpd round) last result limit = none) :
    bookOf (ratMpd round) last = bookOf (ratMpd round) result := by
  unfold getDepthDiff at hnone
  dsimp only at hnone
  split_ifs at hnone with hboth
  rw [Bool.and_eq_true, Option.isNone_iff_eq_none, Option.isNone_iff_eq_none] at hboth
  unfold bookOf
  rw [side_eq_of_getListDiff_none (Or.inl rfl) h1.asks h2.asks hboth.1,
    side_eq_of_getListDiff_none (Or.inr rfl) h1.bids h2.bids hboth.2]

end Book

end ViabtcExchange
