import ViabtcExchange.HistoryOrder
import ViabtcExchange.HistorySql
import ViabtcExchange.Lib.SqlSelect
import ViabtcExchange.MarketKlines
import ViabtcExchange.Replies

/-!
# Queries of the history (`rh_server.c`, `rh_reader.c`)

readhistory makes a `SELECT` of the parameters of a request. Texts are escaped and stand between
quotes, and the table is the one of the user or of the order, by the rule of the matching engine.

**Theorem (`reads_asked`).** Whatever the parameters are, MySQL reads the query that is meant: one
for columns that the table has, and the rows it is answered with are those of the user or of the
order that was asked for.

**Theorem (`pages_show_all`).** Who reads the pages of a history one after another, while the engine
goes on, up to one that is not full, has seen every row that was there at the beginning; and the
rows are in the order in which the engine made them, the last ones first.
-/

namespace ViabtcExchange

open Sql

/-! ## Statements -/

/-- A comparison, as it is written. -/
inductive Filter
  | nat (column : String) (cmp : Cmp) (n : ℕ)
  | text (column : String) (s : String)

namespace Filter

def sql : Filter → List Char
  | nat column cmp n => condText column.toList cmp (showNat n)
  | text column s => condText column.toList .eq (quoted (escape s.toList))

/-- What is meant. -/
def cond : Filter → Cond
  | nat column cmp n => ⟨column.toList, cmp, .number (showNat n)⟩
  | text column s => ⟨column.toList, .eq, .text s.toList⟩

def column : Filter → String
  | nat column _ _ => column
  | text column _ => column

end Filter

/-- A statement of `rh_reader.c`: of one with an order, its offset and its limit. -/
structure HistoryQuery where
  columns : List String
  key : DictSqlKey
  where' : String
  filters : List Filter
  limits : Option (ℕ × ℕ)

namespace HistoryQuery

def cut (q : HistoryQuery) : Option Cut := q.limits.map fun l => ⟨"id".toList, l.1, l.2⟩

/-- The text that is sent to MySQL. -/
def sql (q : HistoryQuery) : List Char :=
  selectHeader (q.columns.map String.toList) q.key.table q.where' ++
    condsText (q.filters.map Filter.sql) ++ q.cut.elim [] cutText

/-- The query that is meant. -/
def select (q : HistoryQuery) : Select :=
  ⟨q.columns.map String.toList, q.key.table, q.filters.map Filter.cond, q.cut⟩

/-! ### `rh_reader.c` -/

/-- No `AND` for an empty text. -/
def optText (column s : String) : List Filter := if s = "" then [] else [.text column s]

/-- No `AND` for 0. -/
def optNat (column : String) (cmp : Cmp) (n : ℕ) : List Filter :=
  if n = 0 then [] else [.nat column cmp n]

def getUserBalanceHistory (userId : ℕ) (asset business : String)
    (startTime endTime offset limit : ℕ) : HistoryQuery where
  columns := ["time", "asset", "business", "change", "balance", "detail"]
  key := ⟨.userBalance, userId % historyHashNum⟩
  where' := "WHERE"
  filters := .nat "user_id" .eq userId :: (optText "asset" asset ++ optText "business" business ++
    optNat "time" .ge startTime ++ optNat "time" .lt endTime)
  limits := some (offset, limit)

/-- `market` is compared with even if it is empty. -/
def getUserOrderFinished (userId : ℕ) (market : String)
    (side startTime endTime offset limit : ℕ) : HistoryQuery where
  columns := ["id", "create_time", "finish_time", "user_id", "market", "source", "t", "side", "price",
    "amount", "taker_fee", "maker_fee", "deal_stock", "deal_money", "deal_fee"]
  key := ⟨.userOrder, userId % historyHashNum⟩
  where' := "WHERE"
  filters := .nat "user_id" .eq userId :: .text "market" market :: (optNat "side" .eq side ++
    optNat "create_time" .ge startTime ++ optNat "create_time" .lt endTime)
  limits := some (offset, limit)

def getOrderDealDetails (orderId offset limit : ℕ) : HistoryQuery where
  columns := ["time", "user_id", "deal_id", "role", "price", "amount", "deal", "fee", "deal_order_id"]
  key := ⟨.orderDeal, orderId % historyHashNum⟩
  where' := "where"
  filters := [.nat "order_id" .eq orderId]
  limits := some (offset, limit)

def getFinishedOrderDetail (orderId : ℕ) : HistoryQuery where
  columns := ["id", "create_time", "finish_time", "user_id", "market", "source", "t", "side", "price",
    "amount", "taker_fee", "maker_fee", "deal_stock", "deal_money", "deal_fee"]
  key := ⟨.orderDetail, orderId % historyHashNum⟩
  where' := "WHERE"
  filters := [.nat "id" .eq orderId]
  limits := none

def getMarketUserDeals (userId : ℕ) (market : String) (offset limit : ℕ) : HistoryQuery where
  columns := ["time", "user_id", "deal_id", "side", "role", "price", "amount", "deal", "fee",
    "deal_order_id", "market"]
  key := ⟨.userDeal, userId % historyHashNum⟩
  where' := "where"
  filters := [.nat "user_id" .eq userId, .text "market" market]
  limits := some (offset, limit)

end HistoryQuery

/-! ## Requests -/

/-- The commands of readhistory. -/
inductive HistoryCommand
  | balanceHistory
  | orderHistory
  | orderDeals
  | orderDetailFinished
  | marketUserDeals
deriving DecidableEq, Repr

namespace HistoryCommand

/-- `QUERY_LIMIT`. -/
def queryLimit : ℕ := 101

section Handlers

variable (params : List Json)

/-- `json_integer_value`, which is 0 for all that is not an integer. -/
def userIdAt (i : ℕ) : Except Refusal ℕ := do
  let userId := toUint32 (Json.integerValue params[i]?)
  check (userId ≠ 0)
  return userId

def orderIdAt (i : ℕ) : Except Refusal ℕ := do
  let orderId := toUint64 (Json.integerValue params[i]?)
  check (orderId ≠ 0)
  return orderId

/-- A start and an end. -/
def timesAt (i : ℕ) : Except Refusal (ℕ × ℕ) := do
  let startTime := toUint64 (Json.integerValue params[i]?)
  let endTime := toUint64 (Json.integerValue params[i + 1]?)
  check (!(endTime ≠ 0 ∧ startTime > endTime))
  return (startTime, endTime)

/-- An offset and a limit. -/
def limitsAt (i : ℕ) : Except Refusal (ℕ × ℕ) := do
  let offset := toUint64 (Json.integerValue params[i]?)
  let limit := toUint64 (Json.integerValue params[i + 1]?)
  check (!(limit = 0 ∨ limit > queryLimit))
  return (offset, limit)

def onCmdBalanceHistory : Except Refusal HistoryQuery := do
  check (params.length = 7)
  let userId ← userIdAt params 0
  let asset ← stringAt params 1
  let business ← stringAt params 2
  let times ← timesAt params 3
  let limits ← limitsAt params 5
  return .getUserBalanceHistory userId asset business times.1 times.2 limits.1 limits.2

def onCmdOrderHistory : Except Refusal HistoryQuery := do
  check (!(params.length < 6))
  let userId ← userIdAt params 0
  let market ← stringAt params 1
  let times ← timesAt params 2
  let limits ← limitsAt params 4
  let side := if params.length ≥ 7 then toInt32 (Json.integerValue params[(6 : ℕ)]?) else 0
  check (side = 0 ∨ side = OrderSide.ask.code ∨ side = OrderSide.bid.code)
  return .getUserOrderFinished userId market side.toNat times.1 times.2 limits.1 limits.2

def onCmdOrderDeals : Except Refusal HistoryQuery := do
  check (params.length = 3)
  let orderId ← orderIdAt params 0
  let limits ← limitsAt params 1
  return .getOrderDealDetails orderId limits.1 limits.2

def onCmdOrderDetailFinished : Except Refusal HistoryQuery := do
  check (params.length = 1)
  let orderId ← orderIdAt params 0
  return .getFinishedOrderDetail orderId

def onCmdMarketDeals : Except Refusal HistoryQuery := do
  check (params.length = 4)
  let userId ← userIdAt params 0
  let market ← stringAt params 1
  let limits ← limitsAt params 2
  return .getMarketUserDeals userId market limits.1 limits.2

/-- `on_job`, up to the statement. -/
def onJob : HistoryCommand → Except Refusal HistoryQuery
  | balanceHistory => onCmdBalanceHistory params
  | orderHistory => onCmdOrderHistory params
  | orderDeals => onCmdOrderDeals params
  | orderDetailFinished => onCmdOrderDetailFinished params
  | marketUserDeals => onCmdMarketDeals params

end Handlers

end HistoryCommand

/-! ## Rows -/

section Rows

variable {D : Type}

/-- What is in the columns that are compared with. The times are in microseconds. -/
def Stamped.column (id : ℕ) (r : Stamped D) (name : String) : Option Value :=
  match r.row, name with
  | .userBalance .., "id" => some (.number id)
  | .userBalance .., "time" => some (.number (r.time / 10 ^ 6))
  | .userBalance userId .., "user_id" => some (.number userId)
  | .userBalance _ asset .., "asset" => some (.text asset.toList)
  | .userBalance _ _ business .., "business" => some (.text business.toList)
  | .userDeal .., "id" => some (.number id)
  | .userDeal userId .., "user_id" => some (.number userId)
  | .userDeal _ market .., "market" => some (.text market.toList)
  | .orderDeal .., "id" => some (.number id)
  | .orderDeal _ _ orderId .., "order_id" => some (.number orderId)
  | .userOrder order, "id" | .orderDetail order, "id" => some (.number order.id)
  | .userOrder order, "user_id" | .orderDetail order, "user_id" => some (.number order.userId)
  | .userOrder order, "market" | .orderDetail order, "market" => some (.text order.market.toList)
  | .userOrder order, "side" | .orderDetail order, "side" => some (.number order.side.code)
  | .userOrder _, "create_time" | .orderDetail _, "create_time" => some (.number (r.time / 10 ^ 6))
  | _, _ => none

/-- A table: its rows in the order in which they were inserted, each with its `id`, if it is one
that is counted. -/
abbrev HistoryTable (D : Type) : Type := List (Stamped D × ℕ)

/-- The rows a query is answered with. `alike` is the collation. -/
def HistoryQuery.answer (alike : List Char → List Char → Bool) (q : HistoryQuery)
    (table : HistoryTable D) : HistoryTable D :=
  q.select.run alike (fun row name => row.1.column row.2 (String.ofList name)) table

end Rows

/-! ## What MySQL reads -/

namespace HistoryQuery

variable {D : Type}

theorem backquote_filter {columns : List String} (h : ∀ name ∈ columns, backquote ∉ name.toList)
    {filter : Filter} (hfilter : filter.column ∈ columns) : CondWritten filter.cond filter.sql := by
  cases filter with
  | nat column cmp n => exact ⟨h _ hfilter, _, written_number (isNumeral_showNat n), rfl⟩
  | text column s => exact ⟨h _ hfilter, _, written_escape s.toList, rfl⟩

theorem backquote_of_columns (type : HistoryType) :
    ∀ name ∈ type.columns, backquote ∉ name.toList := fun name hname =>
  backquote_columns ⟨type, 0⟩ name.toList (List.mem_map_of_mem hname)

/-- A statement about columns that the table has. -/
structure Sound (q : HistoryQuery) : Prop where
  where' : q.where' = "WHERE" ∨ q.where' = "where"
  columns : ∀ name ∈ q.columns, name ∈ q.key.type.columns
  filters : ∀ filter ∈ q.filters, filter.column ∈ q.key.type.columns
  columns_ne : q.columns ≠ []
  filters_ne : q.filters ≠ []
  limits : ∀ l ∈ q.limits, 0 < l.2 ∧ l.2 ≤ HistoryCommand.queryLimit

/-- MySQL reads what is meant. -/
theorem Sound.reads {q : HistoryQuery} (h : q.Sound) : readSelect q.sql = some q.select := by
  refine readSelect_selectText (s := q.select) h.where' (fun cs hcs => ?_)
    (mt List.map_eq_nil_iff.mp h.columns_ne) (backquote_table q.key) ?_
    (mt List.map_eq_nil_iff.mp h.filters_ne) fun cut hcut => ?_
  · obtain ⟨name, hname, rfl⟩ := List.mem_map.mp hcs
    exact backquote_of_columns _ name (h.columns name hname)
  · show List.Forall₂ CondWritten (q.filters.map Filter.cond) (q.filters.map Filter.sql)
    rw [List.forall₂_map_left_iff, List.forall₂_map_right_iff]
    exact List.forall₂_same.mpr fun filter hfilter =>
      backquote_filter (backquote_of_columns _) (h.filters filter hfilter)
  · obtain ⟨l, -, rfl⟩ := Option.map_eq_some_iff.mp hcut
    show backquote ∉ "id".toList
    decide

theorem column_optText {column text : String} {filter : Filter} (h : filter ∈ optText column text) :
    filter.column = column := by
  unfold optText at h
  split_ifs at h
  · cases h
  · rw [List.mem_singleton.mp h]
    rfl

theorem column_optNat {column : String} {cmp : Cmp} {n : ℕ} {filter : Filter}
    (h : filter ∈ optNat column cmp n) : filter.column = column := by
  unfold optNat at h
  split_ifs at h
  · cases h
  · rw [List.mem_singleton.mp h]
    rfl

section Sound

variable {userId orderId side startTime endTime offset limit : ℕ} {asset business market : String}

theorem sound_balanceHistory (h : 0 < limit ∧ limit ≤ HistoryCommand.queryLimit) :
    (getUserBalanceHistory userId asset business startTime endTime offset limit).Sound where
  where' := Or.inl rfl
  columns := by
    show ∀ name ∈ ["time", "asset", "business", "change", "balance", "detail"],
      name ∈ HistoryType.userBalance.columns
    decide
  filters filter hfilter := by
    have hcolumn : filter.column ∈ ["user_id", "asset", "business", "time"] := by
      simp only [getUserBalanceHistory, List.mem_cons, List.mem_append] at hfilter
      rcases hfilter with rfl | ((hfilter | hfilter) | hfilter) | hfilter
      · exact List.mem_cons_self
      · simp [column_optText hfilter]
      · simp [column_optText hfilter]
      · simp [column_optNat hfilter]
      · simp [column_optNat hfilter]
    have hall : ∀ name ∈ ["user_id", "asset", "business", "time"],
        name ∈ HistoryType.userBalance.columns := by decide
    exact hall _ hcolumn
  columns_ne := List.cons_ne_nil _ _
  filters_ne := List.cons_ne_nil _ _
  limits l hl := by
    obtain rfl := Option.some.inj hl
    exact h

theorem sound_orderFinished (h : 0 < limit ∧ limit ≤ HistoryCommand.queryLimit) :
    (getUserOrderFinished userId market side startTime endTime offset limit).Sound where
  where' := Or.inl rfl
  columns name hname := hname
  filters filter hfilter := by
    have hcolumn : filter.column ∈ ["user_id", "market", "side", "create_time"] := by
      simp only [getUserOrderFinished, List.mem_cons, List.mem_append] at hfilter
      rcases hfilter with rfl | rfl | (hfilter | hfilter) | hfilter
      · exact List.mem_cons_self
      · exact List.mem_cons_of_mem _ List.mem_cons_self
      · simp [column_optNat hfilter]
      · simp [column_optNat hfilter]
      · simp [column_optNat hfilter]
    have hall : ∀ name ∈ ["user_id", "market", "side", "create_time"],
        name ∈ HistoryType.userOrder.columns := by decide
    exact hall _ hcolumn
  columns_ne := List.cons_ne_nil _ _
  filters_ne := List.cons_ne_nil _ _
  limits l hl := by
    obtain rfl := Option.some.inj hl
    exact h

theorem sound_orderDeals (h : 0 < limit ∧ limit ≤ HistoryCommand.queryLimit) :
    (getOrderDealDetails orderId offset limit).Sound where
  where' := Or.inr rfl
  columns := by
    show ∀ name ∈ ["time", "user_id", "deal_id", "role", "price", "amount", "deal", "fee",
      "deal_order_id"], name ∈ HistoryType.orderDeal.columns
    decide
  filters filter hfilter := by
    rw [List.mem_singleton.mp hfilter]
    show "order_id" ∈ HistoryType.orderDeal.columns
    decide
  columns_ne := List.cons_ne_nil _ _
  filters_ne := List.cons_ne_nil _ _
  limits l hl := by
    obtain rfl := Option.some.inj hl
    exact h

theorem sound_orderDetail : (getFinishedOrderDetail orderId).Sound where
  where' := Or.inl rfl
  columns name hname := hname
  filters filter hfilter := by
    rw [List.mem_singleton.mp hfilter]
    show "id" ∈ HistoryType.orderDetail.columns
    decide
  columns_ne := List.cons_ne_nil _ _
  filters_ne := List.cons_ne_nil _ _
  limits l hl := by cases hl

theorem sound_marketDeals (h : 0 < limit ∧ limit ≤ HistoryCommand.queryLimit) :
    (getMarketUserDeals userId market offset limit).Sound where
  where' := Or.inr rfl
  columns := by
    show ∀ name ∈ ["time", "user_id", "deal_id", "side", "role", "price", "amount", "deal", "fee",
      "deal_order_id", "market"], name ∈ HistoryType.userDeal.columns
    decide
  filters filter hfilter := by
    have hall : ∀ name ∈ ["user_id", "market"], name ∈ HistoryType.userDeal.columns := by decide
    simp only [getMarketUserDeals, List.mem_cons, List.not_mem_nil, or_false] at hfilter
    rcases hfilter with rfl | rfl
    · exact hall _ (by simp [Filter.column])
    · exact hall _ (by simp [Filter.column])
  columns_ne := List.cons_ne_nil _ _
  filters_ne := List.cons_ne_nil _ _
  limits l hl := by
    obtain rfl := Option.some.inj hl
    exact h

end Sound

end HistoryQuery

/-! ## What is asked for -/

/-- The user or the order that the table of a row is chosen by. -/
def SqlRow.subject {D : Type} : SqlRow D → ℕ
  | .userBalance userId .. => userId
  | .userOrder order => order.userId
  | .userDeal userId .. => userId
  | .orderDetail order => order.id
  | .orderDeal _ _ orderId .. => orderId

def HistoryType.subjectColumn : HistoryType → String
  | .userBalance | .userOrder | .userDeal => "user_id"
  | .orderDeal => "order_id"
  | .orderDetail => "id"

namespace HistoryCommand

variable {D : Type} {params : List Json} {command : HistoryCommand} {q : HistoryQuery}

def type : HistoryCommand → HistoryType
  | balanceHistory => .userBalance
  | orderHistory => .userOrder
  | orderDeals => .orderDeal
  | orderDetailFinished => .orderDetail
  | marketUserDeals => .userDeal

/-- The user or the order a request names. -/
def subject (params : List Json) : HistoryCommand → ℕ
  | orderDeals | orderDetailFinished => toUint64 (Json.integerValue params[(0 : ℕ)]?)
  | _ => toUint32 (Json.integerValue params[(0 : ℕ)]?)

theorem limitsAt_ok {i : ℕ} {limits : ℕ × ℕ} (h : limitsAt params i = .ok limits) :
    0 < limits.2 ∧ limits.2 ≤ queryLimit := by
  unfold limitsAt at h
  simp only [read_bind, check_ok] at h
  obtain ⟨-, hlimit, h⟩ := h
  obtain rfl := Except.ok.inj h
  simp only [Bool.not_eq_true', decide_eq_false_iff_not, not_or, not_lt] at hlimit
  exact ⟨Nat.pos_of_ne_zero hlimit.1, hlimit.2⟩

theorem userIdAt_ok {i userId : ℕ} (h : userIdAt params i = .ok userId) :
    userId = toUint32 (Json.integerValue params[i]?) ∧ userId ≠ 0 := by
  unfold userIdAt at h
  simp only [read_bind, check_ok] at h
  obtain ⟨-, hzero, h⟩ := h
  obtain rfl := Except.ok.inj h
  exact ⟨rfl, of_decide_eq_true hzero⟩

theorem orderIdAt_ok {i orderId : ℕ} (h : orderIdAt params i = .ok orderId) :
    orderId = toUint64 (Json.integerValue params[i]?) ∧ orderId ≠ 0 := by
  unfold orderIdAt at h
  simp only [read_bind, check_ok] at h
  obtain ⟨-, hzero, h⟩ := h
  obtain rfl := Except.ok.inj h
  exact ⟨rfl, of_decide_eq_true hzero⟩

/-- A statement about the user or the order that is asked for. -/
theorem onJob_ok (h : onJob params command = .ok q) : q.Sound ∧ subject params command ≠ 0 ∧
    q.key = ⟨command.type, subject params command % historyHashNum⟩ ∧
    Filter.nat command.type.subjectColumn .eq (subject params command) ∈ q.filters := by
  cases command with
  | balanceHistory =>
    simp only [onJob, onCmdBalanceHistory, read_bind, check_ok] at h
    obtain ⟨-, -, userId, huser, asset, -, business, -, times, -, limits, hlimits, h⟩ := h
    obtain rfl := Except.ok.inj h
    obtain ⟨rfl, hzero⟩ := userIdAt_ok huser
    exact ⟨HistoryQuery.sound_balanceHistory (limitsAt_ok hlimits), hzero, rfl, List.mem_cons_self⟩
  | orderHistory =>
    simp only [onJob, onCmdOrderHistory, read_bind, check_ok] at h
    obtain ⟨-, -, userId, huser, market, -, times, -, limits, hlimits, -, -, h⟩ := h
    obtain rfl := Except.ok.inj h
    obtain ⟨rfl, hzero⟩ := userIdAt_ok huser
    exact ⟨HistoryQuery.sound_orderFinished (limitsAt_ok hlimits), hzero, rfl, List.mem_cons_self⟩
  | orderDeals =>
    simp only [onJob, onCmdOrderDeals, read_bind, check_ok] at h
    obtain ⟨-, -, orderId, horder, limits, hlimits, h⟩ := h
    obtain rfl := Except.ok.inj h
    obtain ⟨rfl, hzero⟩ := orderIdAt_ok horder
    exact ⟨HistoryQuery.sound_orderDeals (limitsAt_ok hlimits), hzero, rfl, List.mem_cons_self⟩
  | orderDetailFinished =>
    simp only [onJob, onCmdOrderDetailFinished, read_bind, check_ok] at h
    obtain ⟨-, -, orderId, horder, h⟩ := h
    obtain rfl := Except.ok.inj h
    obtain ⟨rfl, hzero⟩ := orderIdAt_ok horder
    exact ⟨HistoryQuery.sound_orderDetail, hzero, rfl, List.mem_cons_self⟩
  | marketUserDeals =>
    simp only [onJob, onCmdMarketDeals, read_bind, check_ok] at h
    obtain ⟨-, -, userId, huser, market, -, limits, hlimits, h⟩ := h
    obtain rfl := Except.ok.inj h
    obtain ⟨rfl, hzero⟩ := userIdAt_ok huser
    exact ⟨HistoryQuery.sound_marketDeals (limitsAt_ok hlimits), hzero, rfl, List.mem_cons_self⟩

/-- The column a table is chosen by has the user or the order. -/
theorem column_subject {r : Stamped D} {id : ℕ} (h : r.row.key.type = command.type) {x : ℚ}
    (hcolumn : r.column id command.type.subjectColumn = some (.number x)) : x = r.row.subject := by
  obtain ⟨row, time, finishTime⟩ := r
  cases command <;> cases row <;> first
    | exact (Value.number.inj (Option.some.inj hcolumn)).symm
    | cases h

theorem key_eq {row : SqlRow D} : row.key = ⟨row.key.type, row.subject % historyHashNum⟩ := by
  cases row <;> rfl

/-- The rows of an answer are about what is asked for. -/
theorem answer_subject {alike : List Char → List Char → Bool} {table : HistoryTable D}
    {n : ℕ} (htable : ∀ r ∈ table, r.1.row.key = q.key) (htype : q.key.type = command.type)
    (hfilter : Filter.nat command.type.subjectColumn .eq n ∈ q.filters) :
    ∀ r ∈ q.answer alike table, r ∈ table ∧ r.1.row.subject = n := by
  intro r hr
  have hmatching : r ∈ q.select.matching alike
      (fun row name => row.1.column row.2 (String.ofList name)) table := by
    unfold HistoryQuery.answer Select.run at hr
    split at hr
    · exact hr
    · exact (List.mergeSort_perm _ _).mem_iff.mp (List.mem_of_mem_drop (List.mem_of_mem_take hr))
  obtain ⟨hmem, hconds⟩ := List.mem_filter.mp hmatching
  refine ⟨hmem, ?_⟩
  have hcond := List.all_eq_true.mp hconds _ (List.mem_map_of_mem (f := Filter.cond) hfilter)
  unfold Cond.holds Filter.cond at hcond
  dsimp only at hcond
  rw [String.ofList_toList] at hcond
  split at hcond
  · rename_i x cs hcolumn hvalue
    obtain rfl := Literal.number.inj hvalue
    have hx := column_subject ((congrArg DictSqlKey.type (htable r hmem)).trans htype) hcolumn
    have heq : x = digitsNat (showNat n) := of_decide_eq_true hcond
    unfold showNat at heq
    rw [digitsNat_toDigits, hx] at heq
    exact_mod_cast heq
  · rename_i hvalue
    cases hvalue
  · cases hcond

/-- **A query is the one that was asked for.** Whatever the parameters are, if they are accepted, the
text is read as the query that is meant, for columns the table has and at most 101 rows; it looks into
the table in which the matching engine keeps the rows of the user or of the order, and it is answered
with none but those. -/
theorem reads_asked (h : onJob params command = .ok q) :
    readSelect q.sql = some q.select ∧
      (∀ name ∈ q.columns ++ q.filters.map Filter.column, name ∈ q.key.type.columns) ∧
      (∀ l ∈ q.limits, 0 < l.2 ∧ l.2 ≤ queryLimit) ∧ subject params command ≠ 0 ∧
      (∀ row : SqlRow D, row.key.type = command.type → row.subject = subject params command →
        row.key = q.key) ∧
      ∀ (alike : List Char → List Char → Bool) (table : HistoryTable D),
        (∀ r ∈ table, r.1.row.key = q.key) →
          ∀ r ∈ q.answer alike table, r ∈ table ∧ r.1.row.subject = subject params command := by
  obtain ⟨hsound, hsubject, hkey, hfilter⟩ := onJob_ok h
  refine ⟨hsound.reads, fun name hname => ?_, hsound.limits, hsubject, fun row htype hrow => ?_,
    fun alike table htable => answer_subject htable (congrArg DictSqlKey.type hkey) hfilter⟩
  · rcases List.mem_append.mp hname with hname | hname
    · exact hsound.columns name hname
    · obtain ⟨filter, hfilter, rfl⟩ := List.mem_map.mp hname
      exact hsound.filters filter hfilter
  · rw [key_eq, htype, hrow, hkey]

/-- A business that would end the string, and with it the query. -/
def quoteParams : List Json :=
  [.integer 7, .string "BTC", .string "' OR 1=1 -- ", .integer 0, .integer 0, .integer 50, .integer 50]

theorem reads_asked_quote :
    ∃ q, onJob quoteParams balanceHistory = .ok q ∧ readSelect q.sql = some q.select ∧
      q.filters.map Filter.column = ["user_id", "asset", "business"] := by
  obtain ⟨q, hq⟩ : ∃ q, onJob quoteParams balanceHistory = .ok q := ⟨_, rfl⟩
  refine ⟨q, hq, (reads_asked (D := ℚ) hq).1, ?_⟩
  obtain rfl := Except.ok.inj hq
  rfl

end HistoryCommand

/-! ## The tables as time goes on -/

namespace HistoryTables

variable {D : Type} {historyThread : ℕ} {ok : HistoryTables D → Prop}

/-- A step of the writer: of what has been appended and the tables. -/
inductive Step (ok : HistoryTables D → Prop) :
    List (SqlRow D) × HistoryTables D → List (SqlRow D) × HistoryTables D → Prop
  | append {rows : List (SqlRow D)} {t : HistoryTables D} (row : HistoryRow D) :
    Step ok (rows, t) (rows ++ (sqlRows row).map Prod.snd, { t with queue := t.queue.append row })
  | timer {rows : List (SqlRow D)} {t : HistoryTables D}
      {entries : List (DictSqlKey × List (SqlRow D))} : Iterates t.queue.dictSql entries →
    Step ok (rows, t) (rows, { t with queue := t.queue.onTimer entries })
  | wake {rows : List (SqlRow D)} {t : HistoryTables D} {i : ℕ} {job : Job (List (SqlRow D))} :
    ok t → t.queue.job.move (.wake i) = some job → Step ok (rows, t) (rows, t.setJob job)
  | insert {rows : List (SqlRow D)} {t : HistoryTables D} {i : ℕ} {sql : List (SqlRow D)} :
    t.Waiting i sql →
      Step ok (rows, t) (rows, { t with executed := i :: t.executed, inserted := t.inserted ++ sql })
  | duplicate {rows : List (SqlRow D)} {t : HistoryTables D} {i : ℕ} {sql : List (SqlRow D)} :
    t.Waiting i sql → (∀ row ∈ sql, row.key.type.autoId = false) →
      Step ok (rows, t) (rows, { t with executed := i :: t.executed })
  | reply {rows : List (SqlRow D)} {t : HistoryTables D} {i : ℕ} {job : Job (List (SqlRow D))} :
    i ∈ t.executed → t.queue.job.move (.reply i) = some job →
      Step ok (rows, t) (rows, { t.setJob job with executed := t.executed.filter (· ≠ i) })

abbrev Later (ok : HistoryTables D → Prop) :
    List (SqlRow D) × HistoryTables D → List (SqlRow D) × HistoryTables D → Prop :=
  Relation.ReflTransGen (Step ok)

variable {x y : List (SqlRow D) × HistoryTables D}

theorem Reached.step (h : Reached historyThread ok x.1 x.2) (hstep : Step ok x y) :
    Reached historyThread ok y.1 y.2 := by
  cases hstep with
  | append row => exact h.append row
  | timer hi => exact h.timer hi
  | wake hok hmove => exact h.wake hok hmove
  | insert hwait => exact h.insert hwait
  | duplicate hwait hduplicate => exact h.duplicate hwait hduplicate
  | reply hmem hmove => exact h.reply hmem hmove

theorem Reached.later (h : Reached historyThread ok x.1 x.2) (hlater : Later ok x y) :
    Reached historyThread ok y.1 y.2 := by
  induction hlater with
  | refl => exact h
  | tail _ hstep ih => exact ih.step hstep

/-- Nothing is taken out of a table. -/
theorem Later.inserted (h : Later ok x y) : x.2.inserted <+: y.2.inserted := by
  induction h with
  | refl => exact List.prefix_refl _
  | tail _ hstep ih =>
    refine ih.trans ?_
    cases hstep with
    | insert => exact List.prefix_append _ _
    | _ => exact List.prefix_refl _

/-- A table whose `id` is counted. `stamp` are the times of its rows, and `ids` what it has counted:
perhaps not every number. -/
def table (t : HistoryTables D) (key : DictSqlKey) (stamp : ℕ → ℕ × ℕ) (ids : ℕ → ℕ) :
    HistoryTable D :=
  (part key t.inserted).zipIdx.map fun row =>
    (⟨row.1, (stamp row.2).1, (stamp row.2).2⟩, ids row.2)

variable {t t' : HistoryTables D} {key : DictSqlKey} {stamp : ℕ → ℕ × ℕ} {ids : ℕ → ℕ}

variable (t key stamp ids) in
theorem table_rows : (t.table key stamp ids).map (·.1.row) = part key t.inserted := by
  unfold table
  rw [List.map_map]
  exact List.zipIdx_map_fst 0 _

theorem table_key {r : Stamped D × ℕ} (h : r ∈ t.table key stamp ids) : r.1.row.key = key := by
  have hmem : r.1.row ∈ part key t.inserted := table_rows t key stamp ids ▸
    List.mem_map_of_mem (f := fun r : Stamped D × ℕ => r.1.row) h
  exact of_decide_eq_true (List.mem_filter.mp hmem).2

variable (key stamp ids) in
theorem table_prefix (h : t.inserted <+: t'.inserted) :
    t.table key stamp ids <+: t'.table key stamp ids := by
  obtain ⟨rows, hrows⟩ := h
  unfold table
  rw [← hrows, part_append, List.zipIdx_append, List.map_append]
  exact List.prefix_append _ _

/-- The rows are numbered as they were inserted. -/
theorem table_ids (hids : StrictMono ids) :
    (t.table key stamp ids).Pairwise fun r r' => r.2 < r'.2 := by
  unfold table
  rw [List.pairwise_map]
  have hsnd : ((part key t.inserted).zipIdx.map Prod.snd).Pairwise (· < ·) := by
    rw [List.zipIdx_map_snd]
    exact List.pairwise_lt_range'
  exact (List.pairwise_map.mp hsnd).imp fun h => hids h

end HistoryTables

/-! ## Pages -/

namespace HistoryQuery

open HistoryTables

variable {D : Type} {alike : List Char → List Char → Bool} {q : HistoryQuery} {limit : ℕ}
  {stamp : ℕ → ℕ × ℕ} {ids : ℕ → ℕ} {t t' : HistoryTables D}

/-- The query for the `k`-th page. -/
def atPage (q : HistoryQuery) (limit k : ℕ) : HistoryQuery := { q with limits := some (k * limit, limit) }

/-- The rows that all pages together are of. -/
def wanted (alike : List Char → List Char → Bool) (q : HistoryQuery) (table : HistoryTable D) :
    HistoryTable D :=
  q.select.matching alike (fun row name => row.1.column row.2 (String.ofList name)) table

theorem column_id {r : Stamped D × ℕ} (h : r.1.row.key.type.autoId = true) :
    r.1.column r.2 "id" = some (.number r.2) := by
  obtain ⟨⟨row, time, finishTime⟩, id⟩ := r
  cases row <;> first
    | rfl
    | cases h

/-- The last rows come first. -/
theorem answer_atPage (hauto : q.key.type.autoId = true) (hids : StrictMono ids) (k : ℕ) :
    (q.atPage limit k).answer alike (t.table q.key stamp ids) =
      page (k * limit) limit (q.wanted alike (t.table q.key stamp ids)).reverse := by
  refine Select.run_ordered
    (show (q.atPage limit k).select.cut = some ⟨"id".toList, k * limit, limit⟩ from rfl) ?_
  have hkey : ∀ r ∈ t.table q.key stamp ids, orderKey
      (fun row name => Stamped.column row.2 row.1 (String.ofList name)) "id".toList r = r.2 := by
    intro r hr
    have hcolumn : r.1.column r.2 "id" = some (.number r.2) :=
      column_id (by rw [table_key hr]; exact hauto)
    unfold orderKey
    dsimp only
    rw [String.ofList_toList, hcolumn]
  exact (table_ids hids).imp_of_mem fun hr hr' hlt => by
    dsimp only
    rw [hkey _ hr, hkey _ hr']
    exact_mod_cast hlt

/-- The rows that are wanted later are those of before, and more. -/
theorem wanted_later (h : t.inserted <+: t'.inserted) :
    ∃ more, (q.wanted alike (t'.table q.key stamp ids)).reverse =
      more ++ (q.wanted alike (t.table q.key stamp ids)).reverse := by
  obtain ⟨rows, hrows⟩ := table_prefix q.key stamp ids h
  refine ⟨(q.wanted alike rows).reverse, ?_⟩
  rw [← List.reverse_append, ← hrows]
  exact congrArg List.reverse (List.filter_append ..)

theorem nodup_wanted (hids : StrictMono ids) :
    (q.wanted alike (t.table q.key stamp ids)).reverse.Nodup :=
  List.nodup_reverse.mpr (((table_ids hids).imp fun h heq =>
    absurd (congrArg Prod.snd heq) (ne_of_lt h)).filter _)

/-- **Nobody who turns the pages misses a row.** The pages of a history are read one after another,
and between two of them the engine goes on, up to a page that is not full. What is in the table is
what was appended, in this order, as far as it has been inserted; each page is a piece of what is
wanted of it, the last rows first; and every row that was wanted and there at the first page is on one
of them. -/
theorem pages_show_all (hauto : q.key.type.autoId = true) (hids : StrictMono ids) {historyThread : ℕ}
    {run : ℕ → List (SqlRow D) × HistoryTables D}
    (hstart : Reached historyThread Apart (run 0).1 (run 0).2) {n : ℕ}
    (hlater : ∀ k < n, Later Apart (run k) (run (k + 1)))
    (hend : ((q.atPage limit n).answer alike ((run n).2.table q.key stamp ids)).length < limit) :
    (∀ k ≤ n, ((run k).2.table q.key stamp ids).map (·.1.row) <+: (run k).1.filter (·.key = q.key)) ∧
      (∀ k ≤ n, (q.atPage limit k).answer alike ((run k).2.table q.key stamp ids) =
        page (k * limit) limit (q.wanted alike ((run k).2.table q.key stamp ids)).reverse) ∧
      ∀ r ∈ q.wanted alike ((run 0).2.table q.key stamp ids),
        ∃ k ≤ n, r ∈ (q.atPage limit k).answer alike ((run k).2.table q.key stamp ids) := by
  classical
  have hreached : ∀ k ≤ n, Reached historyThread Apart (run k).1 (run k).2 := by
    intro k
    induction k with
    | zero => exact fun _ => hstart
    | succ k ih => exact fun hk => (ih (by omega)).later (hlater k hk)
  set ls : ℕ → HistoryTable D := fun k =>
    (q.wanted alike ((run k).2.table q.key stamp ids)).reverse with hls
  have hgrow : ∀ k < n, ∃ more, ls (k + 1) = more ++ ls k := fun k hk =>
    wanted_later (hlater k hk).inserted
  have hnodup : ∀ k, (ls k).Nodup := fun k => nodup_wanted hids
  refine ⟨fun k hk => ?_, fun k _ => answer_atPage hauto hids k, fun r hr => ?_⟩
  · rw [table_rows]
    obtain ⟨rest, -, hrows⟩ := (hreached k hk).ordered hauto
    rw [List.append_assoc, List.append_assoc] at hrows
    exact ⟨_, hrows.symm⟩
  · have hlength : (ls n).length ≤ (n + 1) * limit := by
      rw [answer_atPage hauto hids, page, List.length_take, List.length_drop] at hend
      rw [Nat.add_one_mul]
      show (q.wanted alike ((run n).2.table q.key stamp ids)).reverse.length ≤ _
      omega
    obtain ⟨k, hk, hpage⟩ := exists_mem_page_of_grow (fun k _ => hnodup k) (List.mem_reverse.mpr hr)
      hgrow hlength
    exact ⟨k, hk, by rw [answer_atPage hauto hids]; exact hpage⟩

/-- One deposit is in its table, and another one comes between two pages. -/
theorem pages_show_all_deposits :
    ∃ t t' : HistoryTables ℚ, Reached 1 Apart [depositRow 1] t ∧
      Later Apart ([depositRow 1], t) ([depositRow 1, depositRow 2], t') ∧
      ∀ r ∈ (getUserBalanceHistory 7 "" "" 0 0 0 1).wanted (· == ·) (t.table ⟨.userBalance, 7⟩ 0 id),
        ∃ k ≤ 1, r ∈ ((getUserBalanceHistory 7 "" "" 0 0 0 1).atPage 1 k).answer (· == ·)
          ((if k = 0 then t else t').table ⟨.userBalance, 7⟩ 0 id) := by
  have hentries : Iterates ((HistoryQueue.init 1).append (HistoryTables.deposit 1)).dictSql
      [(⟨.userBalance, 7⟩, [depositRow 1])] := rfl
  have hflushed : Reached 1 Apart [depositRow 1] (withThreads [[depositRow 1]] [.ready] [] []) :=
    .timer (.append (HistoryTables.deposit 1) .init) hentries
  have htaken : Reached 1 Apart [depositRow 1] (withThreads [] [.busy [depositRow 1]] [] []) :=
    .wake hflushed (Or.inl rfl) (show Job.move _ (.wake 0) = _ from rfl)
  have hstart : Reached 1 Apart [depositRow 1]
      (withThreads [] [.busy [depositRow 1]] [0] [depositRow 1]) :=
    .insert htaken ⟨rfl, List.not_mem_nil⟩
  set t := withThreads [] [.busy [depositRow 1]] [0] [depositRow 1] with ht
  have hlater : Later Apart ([depositRow 1], t) ([depositRow 1, depositRow 2],
      { t with queue := t.queue.append (HistoryTables.deposit 2) }) := .single (.append (HistoryTables.deposit 2))
  refine ⟨t, _, hstart, hlater, ?_⟩
  have hpages := (@pages_show_all ℚ (· == ·) (getUserBalanceHistory 7 "" "" 0 0 0 1) 1 0 id rfl
    strictMono_id 1 (fun k => if k = 0 then ([depositRow 1], t) else
      ([depositRow 1, depositRow 2],
        { t with queue := t.queue.append (HistoryTables.deposit 2) })) hstart 1
    (fun k hk => by
      obtain rfl : k = 0 := by omega
      exact hlater) (by decide +kernel)).2.2
  intro r hr
  obtain ⟨k, hk, hmem⟩ := hpages r hr
  refine ⟨k, hk, ?_⟩
  rcases Nat.eq_zero_or_pos k with rfl | hpos
  · exact hmem
  · rw [if_neg hpos.ne'] at hmem ⊢
    exact hmem

end HistoryQuery

end ViabtcExchange
