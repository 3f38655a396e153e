import ViabtcExchange.Market

/-!
# The containers of a market

`Market.WF n m` is what every operation keeps of the containers of a market, whatever the
balances do: both sides are strictly ordered by price and then by id, their orders are in the
dictionary, the orders of the dictionary have ids up to `n` and are in the list of their user,
and the lists of the users hold nothing else.

What `WF` does not say is that an order of the dictionary is on its side of the book: an order
whose `balance_unfreeze` fails has left its side and stays in the dictionary.

The numbers are rationals, rounded in any way: comparisons do not round.
-/

namespace ViabtcExchange

/-- Better prices first, then lower ids. -/
def Market.key (m : Market ℚ) (side : OrderSide) (i : ℕ) : ℚ ×ₗ ℕ :=
  match side with
  | .ask => toLex ((m.order i).price, i)
  | .bid => toLex (-(m.order i).price, i)

/-- What a container may rely on: an id points to an order of that id. -/
structure Market.Named (m : Market ℚ) (i : ℕ) : Prop where
  id : (m.order i).id = i
  type : (m.order i).type = .limit

structure Market.WF (n : ℕ) (m : Market ℚ) : Prop where
  sorted : ∀ side, Ordered (m.key side) (m.book side)
  mem : ∀ side, ∀ i ∈ m.book side, i ∈ m.orders
  side : ∀ side, ∀ i ∈ m.book side, (m.order i).side = side
  named : ∀ i ∈ m.orders, m.Named i
  home : ∀ i ∈ m.orders, (m.order i).market = m.name
  le : ∀ i ∈ m.orders, i ≤ n
  users : ∀ u l, m.users.find u = some l →
    Ordered OrderDual.toDual l ∧ ∀ i ∈ l, i ∈ m.orders ∧ (m.order i).userId = u
  listed : ∀ i ∈ m.orders, ∃ l, m.users.find (m.order i).userId = some l ∧ i ∈ l

section Compare

variable {round : ℚ → ℚ} {m : Market ℚ}

/-- A comparison of numbers and then of ids is that of the pairs. -/
theorem compare_pair {c : ℤ} {x y : ℚ} {i j : ℕ} (hlt : c < 0 ↔ x < y) (heq : c = 0 ↔ x = y)
    (hij : i ≠ j) :
    let c' := if c ≠ 0 then c else if i > j then 1 else -1
    (c' < 0 ↔ toLex (x, i) < toLex (y, j)) ∧ (c' = 0 ↔ toLex (x, i) = toLex (y, j)) := by
  have hne : toLex (x, i) ≠ toLex (y, j) := fun h =>
    hij (Prod.ext_iff.mp (toLex.injective h)).2
  simp only [ne_eq, Prod.Lex.toLex_lt_toLex]
  by_cases hc : c = 0
  · have hxy : x = y := heq.mp hc
    rcases lt_or_gt_of_ne hij with h | h
    · simp [hc, hxy, h, h.not_gt, h.ne]
    · simp [hc, hxy, h, h.not_gt, h.ne']
  · have hxy : x ≠ y := fun h => hc (heq.mpr h)
    simp [hc, hlt, hxy]

variable (round) in
/-- On the orders of one side, `order_match_compare` compares the keys. -/
theorem lawful_matchCompare (side : OrderSide) {S : List ℕ} (hS : ∀ i ∈ S, m.Named i)
    (hside : ∀ i ∈ S, (m.order i).side = side) :
    Lawful (m.matchCompare (ratMpd round)) (m.key side) S := by
  intro i hi j hj
  unfold Market.matchCompare orderMatchCompare
  rw [(hS i hi).id, (hS j hj).id, (hS i hi).type, (hS j hj).type, hside i hi]
  by_cases hij : i = j
  · subst hij
    simp
  · cases side with
    | ask =>
      have h := compare_pair (ratMpd_cmp_lt round (m.order i).price (m.order j).price)
        (ratMpd_cmp_eq round _ _) hij
      simpa only [Market.key, hij, if_false, ne_eq, not_true_eq_false] using h
    | bid =>
      have h := compare_pair (x := -(m.order i).price) (y := -(m.order j).price)
        ((ratMpd_cmp_lt round _ _).trans neg_lt_neg_iff.symm)
        ((ratMpd_cmp_eq round _ _).trans (eq_comm.trans neg_inj.symm)) hij
      simpa only [Market.key, hij, if_false, ne_eq, not_true_eq_false] using h

theorem lawful_idCompare {S : List ℕ} (hS : ∀ i ∈ S, m.Named i) :
    Lawful m.idCompare OrderDual.toDual S := by
  intro i hi j hj
  unfold Market.idCompare orderIdCompare
  rw [(hS i hi).id, (hS j hj).id, OrderDual.toDual_lt_toDual, OrderDual.toDual_inj]
  rcases lt_trichotomy i j with h | h | h
  · simp [h.ne, h.not_gt]
  · simp [h]
  · simp [h.ne', h]

/-- Removal from an ordered container, whether the order is in it or not. -/
theorem skiplistRemove_eq {κ : Type} [LinearOrder κ] {cmp : ℕ → ℕ → ℤ} {k : ℕ → κ} {l : List ℕ}
    {i : ℕ} (hl : Ordered k l) (hcmp : Lawful cmp k (i :: l)) (hk : Function.Injective k) :
    skiplistRemove cmp l i = l.erase i := by
  unfold skiplistRemove
  have hsub : Lawful cmp k l := hcmp.mono fun x hx => List.mem_cons_of_mem i hx
  by_cases hi : i ∈ l
  · rw [chainFind_of_mem hl hsub hi]
    exact chainDelete_eq_erase hl hsub hi
  · have hne : ∀ x ∈ l, cmp x i ≠ 0 := fun x hx h =>
      hi (hk ((hcmp x (List.mem_cons_of_mem i hx) i List.mem_cons_self).2.mp h) ▸ hx)
    rw [chainFind_eq_none hne, List.erase_of_not_mem hi]

end Compare

theorem Market.key_injective (m : Market ℚ) (side : OrderSide) :
    Function.Injective (m.key side) := by
  intro i j h
  cases side with
  | ask => exact (Prod.ext_iff.mp (toLex.injective h)).2
  | bid => exact (Prod.ext_iff.mp (toLex.injective h)).2

/-! ## What changes and what stays -/

/-- The configuration a market was made from. -/
def Market.conf {D : Type} (m : Market D) : MarketConf D :=
  ⟨m.name, m.stock, m.money, m.stockPrec, m.moneyPrec, m.feePrec, m.minAmount⟩

/-- Fields that are fixed when an order is made, those the containers look at among them. -/
structure SameFace {D : Type} (o o' : Order D) : Prop where
  id : o'.id = o.id
  type : o'.type = o.type
  side : o'.side = o.side
  userId : o'.userId = o.userId
  market : o'.market = o.market
  price : o'.price = o.price

namespace Market.WF

variable {n : ℕ} {m : Market ℚ}

theorem nodup (h : m.WF n) (side : OrderSide) : (m.book side).Nodup := (h.sorted side).nodup

theorem lawful {round : ℚ → ℚ} (h : m.WF n) {side : OrderSide} {S : List ℕ}
    (hS : ∀ i ∈ S, i ∈ m.orders) (hside : ∀ i ∈ S, (m.order i).side = side) :
    Lawful (m.matchCompare (ratMpd round)) (m.key side) S :=
  lawful_matchCompare round side (fun i hi => h.named i (hS i hi)) hside

/-- An order that is on a side is on its own side. -/
theorem book_eq (h : m.WF n) {side : OrderSide} {i : ℕ} (hi : i ∈ m.book side) :
    side = (m.order i).side := (h.side side i hi).symm

/-- The containers do not see a change of the other fields. -/
theorem congr_order (h : m.WF n) {f : ℕ → Order ℚ} (hf : ∀ i, SameFace (m.order i) (f i)) :
    Market.WF n { m with order := f } := by
  have hkey : ∀ side, Market.key { m with order := f } side = m.key side := fun side =>
    funext fun i => by
      cases side <;> simp only [Market.key, (hf i).price]
  have hbook : ∀ side, Market.book { m with order := f } side = m.book side := fun side => by
    cases side <;> rfl
  refine ⟨fun side => ?_, fun side i hi => ?_, fun side i hi => ?_, fun i hi => ⟨?_, ?_⟩,
    fun i hi => (hf i).market.trans (h.home i hi), h.le, fun u l hl => ?_, fun i hi => ?_⟩
  · rw [hkey, hbook]
    exact h.sorted side
  · rw [hbook] at hi
    exact h.mem side i hi
  · rw [hbook] at hi
    exact (hf i).side.trans (h.side side i hi)
  · exact (hf i).id.trans (h.named i hi).id
  · exact (hf i).type.trans (h.named i hi).type
  · refine ⟨(h.users u l hl).1, fun i hi => ⟨((h.users u l hl).2 i hi).1, ?_⟩⟩
    exact (hf i).userId.trans ((h.users u l hl).2 i hi).2
  · obtain ⟨l, hl, hmem⟩ := h.listed i hi
    exact ⟨l, by simpa only [(hf i).userId] using hl, hmem⟩

/-- Erasing an order from its side erases it from both. -/
theorem book_erase (h : m.WF n) (i : ℕ) (s : OrderSide) :
    (m.setBook (m.order i).side ((m.book (m.order i).side).erase i)).book s =
      (m.book s).erase i := by
  rw [Market.book_setBook]
  split_ifs with hs
  · rw [hs]
  · rw [List.erase_of_not_mem fun hi => hs (h.book_eq hi)]

/-- An order may leave its side of the book. -/
theorem removeBook (h : m.WF n) (i : ℕ) :
    (m.setBook (m.order i).side ((m.book (m.order i).side).erase i)).WF n := by
  have hkey : ∀ s, (m.setBook (m.order i).side ((m.book (m.order i).side).erase i)).key s =
      m.key s := fun s => funext fun j => by
    cases s <;> simp only [Market.key, Market.setBook_order]
  refine ⟨fun s => ?_, fun s j hj => ?_, fun s j hj => ?_, fun j hj => ?_, fun j hj => ?_,
    ?_, ?_, ?_⟩
  · rw [hkey, h.book_erase]
    exact (h.sorted s).sublist List.erase_sublist
  · rw [h.book_erase] at hj
    rw [Market.setBook_orders]
    exact h.mem s j (List.mem_of_mem_erase hj)
  · rw [h.book_erase] at hj
    rw [Market.setBook_order]
    exact h.side s j (List.mem_of_mem_erase hj)
  · rw [Market.setBook_orders] at hj
    obtain ⟨hid, htype⟩ := h.named j hj
    exact ⟨by rw [Market.setBook_order]; exact hid, by rw [Market.setBook_order]; exact htype⟩
  · rw [Market.setBook_orders] at hj
    rw [Market.setBook_order, Market.setBook_name]
    exact h.home j hj
  · rw [Market.setBook_orders]
    exact h.le
  · rw [Market.setBook_users, Market.setBook_orders, Market.setBook_order]
    exact h.users
  · rw [Market.setBook_users, Market.setBook_orders, Market.setBook_order]
    exact h.listed

/-- The list of a user has the orders of the user. -/
theorem mem_list_iff (h : m.WF n) {u : ℕ} {l : List ℕ} (hl : m.users.find u = some l)
    (i : ℕ) : i ∈ l ↔ i ∈ m.orders ∧ (m.order i).userId = u := by
  refine ⟨(h.users u l hl).2 i, fun ⟨hi, hu⟩ => ?_⟩
  obtain ⟨l', hl', hmem⟩ := h.listed i hi
  rw [hu, hl] at hl'
  exact Option.some.inj hl' ▸ hmem

/-- A user without a list has no orders. -/
theorem userList_spec (h : m.WF n) (u : ℕ) :
    Ordered OrderDual.toDual ((m.users.find u).getD []) ∧
      ∀ i, i ∈ (m.users.find u).getD [] ↔ i ∈ m.orders ∧ (m.order i).userId = u := by
  cases hl : m.users.find u with
  | some l => exact ⟨(h.users u l hl).1, h.mem_list_iff hl⟩
  | none =>
    refine ⟨List.Pairwise.nil, fun i => ⟨fun hi => absurd hi List.not_mem_nil, fun ⟨hi, hu⟩ => ?_⟩⟩
    obtain ⟨l, hl', -⟩ := h.listed i hi
    rw [hu, hl] at hl'
    cases hl'

/-- The list of a user, as `order_finish` leaves it. -/
theorem skiplistRemove_users (h : m.WF n) {u i : ℕ} {l : List ℕ} (hl : m.users.find u = some l)
    (hi : i ∈ m.orders) : skiplistRemove m.idCompare l i = l.erase i :=
  skiplistRemove_eq (h.users u l hl).1
    (lawful_idCompare fun j hj => by
      rcases List.mem_cons.mp hj with rfl | hj
      · exact h.named j hi
      · exact h.named j ((h.users u l hl).2 j hj).1)
    OrderDual.toDual.injective

/-- An order that has left the book may leave the dictionary and the list of its user. -/
theorem dropOrder (h : m.WF n) {i : ℕ} (hi : i ∈ m.orders) (hbook : ∀ side, i ∉ m.book side) :
    (m.dropOrder (m.order i)).WF n ∧ (m.dropOrder (m.order i)).orders = m.orders.erase i := by
  obtain ⟨l, hl, hil⟩ := h.listed i hi
  have horders : (m.dropOrder (m.order i)).orders = m.orders.erase i := by
    simp only [Market.dropOrder, (h.named i hi).id]
  have husers : ∀ u, (m.dropOrder (m.order i)).users.find u =
      if u = (m.order i).userId then some (l.erase i) else m.users.find u := by
    intro u
    simp only [Market.dropOrder, hl, (h.named i hi).id, h.skiplistRemove_users hl hi,
      Dict.find_insert]
  refine ⟨⟨h.sorted, fun side j hj => ?_, h.side, fun j hj => ?_, fun j hj => ?_,
    fun j hj => ?_, fun u l' hl' => ?_, fun j hj => ?_⟩, horders⟩
  · rw [horders, Finset.mem_erase]
    exact ⟨fun hji => hbook side (hji ▸ hj), h.mem side j hj⟩
  · rw [horders] at hj
    have hname := h.named j (Finset.mem_of_mem_erase hj)
    exact ⟨hname.id, hname.type⟩
  · rw [horders] at hj
    exact h.home j (Finset.mem_of_mem_erase hj)
  · rw [horders] at hj
    exact h.le j (Finset.mem_of_mem_erase hj)
  · rw [horders]
    rw [husers] at hl'
    split_ifs at hl' with hu
    · obtain rfl := Option.some.inj hl'
      obtain ⟨hsorted, hmem⟩ := h.users _ l hl
      refine ⟨hsorted.sublist List.erase_sublist, fun j hj => ?_⟩
      obtain ⟨hji, hjl⟩ := (hsorted.nodup.mem_erase_iff).mp hj
      exact ⟨Finset.mem_erase.mpr ⟨hji, (hmem j hjl).1⟩, (hmem j hjl).2.trans hu.symm⟩
    · refine ⟨(h.users u l' hl').1, fun j hj => ?_⟩
      obtain ⟨hjo, hju⟩ := (h.users u l' hl').2 j hj
      exact ⟨Finset.mem_erase.mpr ⟨fun hji => hu (hji ▸ hju.symm), hjo⟩, hju⟩
  · rw [horders] at hj
    obtain ⟨hji, hjo⟩ := Finset.mem_erase.mp hj
    obtain ⟨l', hl', hjl'⟩ := h.listed j hjo
    rw [husers]
    split_ifs with hu
    · refine ⟨_, rfl, (List.mem_erase_of_ne hji).mpr ?_⟩
      have heq : m.users.find (m.order j).userId = some l := hu.symm ▸ hl
      rw [heq] at hl'
      exact Option.some.inj hl' ▸ hjl'
    · exact ⟨l', hl', hjl'⟩

end Market.WF

/-! ## Finishing an order -/

section Finish

variable {round : ℚ → ℚ} {n : ℕ} {m : Market ℚ} {i : ℕ}

/-- What `order_finish` of the order `i` makes of the containers. -/
structure Finished (n : ℕ) (m m' : Market ℚ) (i : ℕ) (stuck : Prop) : Prop where
  wf : m'.WF n
  conf : m'.conf = m.conf
  order : m'.order = m.order
  book : ∀ side, m'.book side = (m.book side).erase i
  kept : stuck → m'.orders = m.orders
  dropped : ¬stuck → m'.orders = m.orders.erase i

theorem giveAsset_eq_of_conf {D : Type} {m m' : Market D} (h : m'.conf = m.conf)
    (side : OrderSide) : m'.giveAsset side = m.giveAsset side := by
  cases side with
  | ask => exact congrArg MarketConf.stock h
  | bid => exact congrArg MarketConf.money h

@[simp] theorem conf_setBook {D : Type} (m : Market D) (side : OrderSide) (ids : List ℕ) :
    (m.setBook side ids).conf = m.conf := by
  cases side <;> rfl

/-- The search and the deletion of `order_finish` take the order off its side. -/
theorem Market.WF.skiplistRemove_book (h : m.WF n) (hi : i ∈ m.orders) :
    skiplistRemove (m.matchCompare (ratMpd round)) (m.book (m.order i).side) i =
      (m.book (m.order i).side).erase i := by
  refine skiplistRemove_eq (h.sorted _) (h.lawful (fun j hj => ?_) fun j hj => ?_)
    (m.key_injective _)
  · rcases List.mem_cons.mp hj with rfl | hj
    · exact hi
    · exact h.mem _ j hj
  · rcases List.mem_cons.mp hj with rfl | hj
    · rfl
    · exact h.side _ j hj

variable (round) in
theorem orderFinish_market (real : Bool) (s : Statics ℚ) (h : m.WF n) (hi : i ∈ m.orders) :
    Finished n m (orderFinish (ratMpd round) real s m i).2 i
      (orderStuck (ratMpd round) s m i = true) := by
  set m₁ := m.unbook (ratMpd round) i with hm₁
  have hm₁' : m₁ = m.setBook (m.order i).side ((m.book (m.order i).side).erase i) := by
    rw [hm₁, Market.unbook, h.skiplistRemove_book hi]
  have hbook : ∀ s, m₁.book s = (m.book s).erase i := hm₁' ▸ h.book_erase i
  have horder : m₁.order = m.order := hm₁' ▸ Market.setBook_order _ _ _
  have horders : m₁.orders = m.orders := hm₁' ▸ Market.setBook_orders _ _ _
  have hconf : m₁.conf = m.conf := hm₁' ▸ conf_setBook _ _ _
  have hwf : m₁.WF n := hm₁' ▸ h.removeBook i
  have hni : ∀ s, i ∉ m₁.book s := fun s => by
    rw [hbook]
    exact (h.nodup s).not_mem_erase
  have hdrop := hwf.dropOrder (horders ▸ hi) hni
  rw [horder, horders] at hdrop
  unfold orderFinish
  by_cases hstuck : orderStuck (ratMpd round) s m i = true
  · rw [if_pos hstuck]
    exact ⟨hwf, hconf, horder, hbook, fun _ => horders, fun hn => absurd hstuck hn⟩
  · rw [if_neg hstuck]
    exact ⟨hdrop.1, hconf, horder, hbook, fun hs => absurd hs hstuck, fun _ => hdrop.2⟩

end Finish

/-! ## Putting an order -/

section Put

variable {round : ℚ → ℚ} {n : ℕ} {m : Market ℚ} {o : Order ℚ}

/-- What `order_put` of the order `o` makes of the containers. -/
structure Rested (m m' : Market ℚ) (o : Order ℚ) (freeze : ℚ) : Prop where
  wf : m'.WF o.id
  conf : m'.conf = m.conf
  order : m'.order = Function.update m.order o.id { o with freeze := freeze }
  orders : m'.orders = insert o.id m.orders
  book : (m'.book o.side).Perm (o.id :: m.book o.side)
  other : ∀ side, side ≠ o.side → m'.book side = m.book side

/-- The market once a new order is in the dictionary, the user list and its side. -/
def Market.entered (m : Market ℚ) (o : Order ℚ) (users : Dict ℕ (List ℕ)) (ids : List ℕ)
    (freeze : ℚ) : Market ℚ :=
  (((m.addOrder o).setUsers users).setBook o.side ids).setOrder o.id { o with freeze := freeze }

theorem Market.WF.rested (h : m.WF n) (hid : n < o.id) (htype : o.type = .limit)
    (hmarket : o.market = m.name) {users : Dict ℕ (List ℕ)} {l ids : List ℕ} {freeze : ℚ}
    (husers : users = m.users.insert o.userId l)
    (hl : l.Perm (o.id :: (m.users.find o.userId).getD []))
    (hlo : Ordered OrderDual.toDual l) (hids : ids.Perm (o.id :: m.book o.side))
    (hido : Ordered ((m.setOrder o.id o).key o.side) ids) :
    Rested m (m.entered o users ids freeze) o freeze := by
  have hnew : o.id ∉ m.orders := fun hi => (h.le _ hi).not_gt hid
  set m' := m.entered o users ids freeze with hm'
  have horder : m'.order = Function.update m.order o.id { o with freeze := freeze } := by
    simp [hm', Market.entered]
  have horders : m'.orders = insert o.id m.orders := by simp [hm', Market.entered]
  have hbook : ∀ s, m'.book s = if s = o.side then ids else m.book s := fun s => by
    simp only [hm', Market.entered, Market.setOrder_book, Market.book_setBook,
      Market.setUsers_book, Market.addOrder_book]
  have hold : ∀ i ∈ m.orders, m'.order i = m.order i := fun i hi => by
    rw [horder, Function.update_of_ne fun h' : i = o.id => hnew (h' ▸ hi)]
  have hself : m'.order o.id = { o with freeze := freeze } := by rw [horder, Function.update_self]
  have hkey : ∀ s, ∀ i, m'.key s i = (m.setOrder o.id o).key s i := by
    intro s i
    have hprice : (m'.order i).price = ((m.setOrder o.id o).order i).price := by
      rw [horder, Market.setOrder_order, Function.update_apply, Function.update_apply]
      split_ifs <;> rfl
    cases s <;> simp only [Market.key, hprice]
  have hkeyold : ∀ s, ∀ i ∈ m.book s, m'.key s i = m.key s i := by
    intro s i hi
    cases s <;> simp only [Market.key, hold i (h.mem _ i hi)]
  have hfind : ∀ u, m'.users.find u = if u = o.userId then some l else m.users.find u := fun u => by
    simp [hm', Market.entered, husers, Dict.find_insert]
  -- the list of the user, before
  have hlmem : ∀ i, i ∈ l ↔ i = o.id ∨ i ∈ m.orders ∧ (m.order i).userId = o.userId := by
    intro i
    rw [hl.mem_iff, List.mem_cons]
    refine or_congr_right ⟨fun hi => ?_, fun hi => ?_⟩
    · cases hu : m.users.find o.userId with
      | none => simp [hu] at hi
      | some l₀ => exact (h.users _ _ hu).2 i (by simpa [hu] using hi)
    · obtain ⟨l₀, hl₀, hil⟩ := h.listed i hi.1
      rw [hi.2] at hl₀
      simpa [hl₀] using hil
  have hname : m'.name = m.name := by simp [hm', Market.entered]
  refine ⟨⟨fun s => ?_, fun s i hi => ?_, fun s i hi => ?_, fun i hi => ?_, fun i hi => ?_,
    fun i hi => ?_, fun u lu hu => ?_, fun i hi => ?_⟩, by rw [hm']; exact conf_setBook _ _ _,
    horder, horders, ?_, fun s hs => ?_⟩
  · rw [hbook]
    split_ifs with hs
    · rw [hs]
      exact hido.congr fun i _ => hkey o.side i
    · exact (h.sorted s).congr (hkeyold s)
  · rw [hbook] at hi
    rw [horders]
    split_ifs at hi with hs
    · rcases List.mem_cons.mp (hids.mem_iff.mp hi) with rfl | hi
      · exact Finset.mem_insert_self _ _
      · exact Finset.mem_insert_of_mem (h.mem _ i hi)
    · exact Finset.mem_insert_of_mem (h.mem s i hi)
  · rw [hbook] at hi
    split_ifs at hi with hs
    · rcases List.mem_cons.mp (hids.mem_iff.mp hi) with rfl | hi
      · rw [hself, hs]
      · rw [hold i (h.mem _ i hi), hs]
        exact h.side _ i hi
    · rw [hold i (h.mem s i hi)]
      exact h.side s i hi
  · rw [horders] at hi
    rcases Finset.mem_insert.mp hi with rfl | hi
    · exact ⟨by rw [hself], by rw [hself]; exact htype⟩
    · exact ⟨by rw [hold i hi]; exact (h.named i hi).id, by
        rw [hold i hi]
        exact (h.named i hi).type⟩
  · rw [horders] at hi
    rw [hname]
    rcases Finset.mem_insert.mp hi with rfl | hi
    · rw [hself]
      exact hmarket
    · rw [hold i hi]
      exact h.home i hi
  · rw [horders] at hi
    rcases Finset.mem_insert.mp hi with rfl | hi
    · exact le_rfl
    · exact (h.le i hi).trans hid.le
  · rw [hfind] at hu
    split_ifs at hu with huo
    · obtain rfl := Option.some.inj hu
      refine ⟨hlo, fun i hi => ?_⟩
      rw [horders, huo]
      rcases (hlmem i).mp hi with rfl | ⟨hio, hiu⟩
      · exact ⟨Finset.mem_insert_self _ _, by rw [hself]⟩
      · exact ⟨Finset.mem_insert_of_mem hio, by rw [hold i hio]; exact hiu⟩
    · refine ⟨(h.users u lu hu).1, fun i hi => ?_⟩
      obtain ⟨hio, hiu⟩ := (h.users u lu hu).2 i hi
      exact ⟨by rw [horders]; exact Finset.mem_insert_of_mem hio, by rw [hold i hio]; exact hiu⟩
  · rw [horders] at hi
    rcases Finset.mem_insert.mp hi with rfl | hi
    · rw [hself]
      exact ⟨l, by simp [hfind], (hlmem _).mpr (Or.inl rfl)⟩
    · rw [hold i hi, hfind]
      split_ifs with hu
      · exact ⟨l, rfl, (hlmem i).mpr (Or.inr ⟨hi, hu⟩)⟩
      · exact h.listed i hi
  · rw [hbook, if_pos rfl]
    exact hids
  · rw [hbook, if_neg hs]

variable (round) in
/-- A new order comes to rest: `order_put` goes through to its `balance_freeze`. -/
theorem orderPut_eq (s : Statics ℚ) (h : m.WF n) (hid : n < o.id) (htype : o.type = .limit)
    (hmarket : o.market = m.name) :
    ∃ m', orderPut (ratMpd round) s m o =
        (s.call (ratMpd round)
          (.freeze o.userId (m.giveAsset o.side) (restFreeze (ratMpd round) o)), m') ∧
      Rested m m' o (restFreeze (ratMpd round) o) := by
  have hnew : o.id ∉ m.orders := fun hi => (h.le _ hi).not_gt hid
  set m₁ := m.addOrder o with hm₁
  have hself : m₁.Named o.id := ⟨by simp [hm₁], by simp [hm₁, htype]⟩
  have hold : ∀ i ∈ m.orders, m₁.order i = m.order i := fun i hi => by
    simp [hm₁, Function.update_of_ne fun h' : i = o.id => hnew (h' ▸ hi)]
  have hnamed : ∀ i ∈ m.orders, m₁.Named i := fun i hi =>
    ⟨by rw [hold i hi]; exact (h.named i hi).id, by rw [hold i hi]; exact (h.named i hi).type⟩
  -- the list of the user
  set l₀ := (m.users.find o.userId).getD [] with hl₀
  have hl₀mem : Ordered OrderDual.toDual l₀ ∧ ∀ i ∈ l₀, i ∈ m.orders := by
    rw [hl₀]
    cases hu : m.users.find o.userId with
    | none => simp [Ordered]
    | some l => exact ⟨(h.users _ _ hu).1, fun i hi => ((h.users _ _ hu).2 i hi).1⟩
  obtain ⟨l, hl, hlperm, hlo⟩ := chainInsert_eq (v := o.id) hl₀mem.1
    (lawful_idCompare (m := m₁) fun i hi => by
      rcases List.mem_cons.mp hi with rfl | hi
      · exact hself
      · exact hnamed i (hl₀mem.2 i hi))
    fun i hi h' => hnew (OrderDual.toDual.injective h' ▸ hl₀mem.2 i hi)
  -- its side of the book
  have hkeyold : ∀ i ∈ m.book o.side, m₁.key o.side i = m.key o.side i := fun i hi => by
    cases hs : o.side <;> simp only [Market.key, hold i (h.mem _ i hi)]
  obtain ⟨ids, hids, hidsperm, hido⟩ := chainInsert_eq (v := o.id)
    ((h.sorted o.side).congr hkeyold)
    (lawful_matchCompare (m := m₁) round o.side (fun i hi => by
      rcases List.mem_cons.mp hi with rfl | hi
      · exact hself
      · exact hnamed i (h.mem _ i hi)) fun i hi => by
      rcases List.mem_cons.mp hi with rfl | hi
      · simp [hm₁]
      · rw [hold i (h.mem _ i hi)]
        exact h.side _ i hi)
    fun i hi h' => hnew (m₁.key_injective _ h' ▸ h.mem _ i hi)
  refine ⟨_, ?_, h.rested hid htype hmarket rfl hlperm hlo hidsperm hido⟩
  have hput : m₁.putUser o = some (m.users.insert o.userId l) := by
    unfold Market.putUser
    rw [hm₁, Market.addOrder_users, ← hl₀, ← hm₁, hl, Option.map_some]
  have hinsert : chainInsert
      (Market.matchCompare (ratMpd round) (m₁.setUsers (m.users.insert o.userId l)))
      (m.book o.side) o.id = some ids := hids
  unfold orderPut
  rw [if_neg (not_not.mpr htype), if_neg hnew]
  simp only [← hm₁, hput, Market.setUsers_book]
  simp only [hm₁, Market.addOrder_book] at hinsert ⊢
  simp only [hinsert, Market.setOrder_giveAsset, Market.setBook_giveAsset,
    Market.setUsers_giveAsset, Market.addOrder_giveAsset, Market.entered]

end Put

end ViabtcExchange
