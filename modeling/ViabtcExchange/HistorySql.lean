import ViabtcExchange.HistoryRows
import ViabtcExchange.Lib.Sql

/-!
# The statements of the history (`me_history.c`)

The texts that `append_user_balance` and its siblings build up in `dict_sql`, tuple by tuple. Names,
sources and businesses are pasted between quotes as they are; the detail of a balance row is escaped
into a buffer of `10 * 1024` bytes on the stack, and what happens behind its end is undefined
(`overrun`).

How `mpd_to_sci` and `json_dumps` print is a parameter. The first is held to its letters, digits,
points and signs; of the second nothing is asked.

**Theorem (`SqlQueue.Run.good`).** As long as no string that is pasted has a meaning of its own
inside of a string, and every detail fits, each statement is read back as one `INSERT` of exactly
its rows.
-/

namespace ViabtcExchange

open Sql

/-! ## Values -/

/-- What `mpd_to_sci` may write. -/
def isSci (c : Char) : Bool := c.isAlphanum || c = '.' || c = '+' || c = '-'

def Sci : Type := { cs : List Char // cs.all isSci = true }

structure Printer (D : Type) where
  toSci : D → Sci
  dumps : Detail D → List Char

/-- `%u`. -/
def showNat (n : ℕ) : List Char := Nat.toDigits 10 n

/-- `%f`, of microseconds. -/
def showTime (t : ℕ) : List Char :=
  let digits := showNat (t % 1000000)
  showNat (t / 1000000) ++ '.' :: (List.replicate (6 - digits.length) '0' ++ digits)

/-- A value of a tuple, by how it is written. -/
inductive Field
  | null
  | nat (n : ℕ)
  | time (t : ℕ)
  | sci (cs : Sci)
  | paste (cs : List Char)
  | escape (cs : List Char)

/-- `char buf[10 * 1024]`. -/
def bufSize : ℕ := 10 * 1024

/-- The bytes of a text. -/
def utf8Size (cs : List Char) : ℕ := (cs.map Char.utf8Size).sum

namespace Field

def text : Field → List Char
  | null => "NULL".toList
  | nat n => showNat n
  | time t => showTime t
  | sci cs => quoted cs.1
  | paste cs => quoted cs
  | escape cs => quoted (Sql.escape cs)

/-- The value that is meant. -/
def literal : Field → Literal
  | null => .null
  | nat n => .number (showNat n)
  | time t => .number (showTime t)
  | sci cs => .text cs.1
  | paste cs => .text cs
  | escape cs => .text cs

/-- `mysql_real_escape_string` ends its text with a NUL. -/
def fits : Field → Bool
  | escape cs => utf8Size (Sql.escape cs) < bufSize
  | _ => true

/-- No `'`, and no backslash but before `%` or `_`, in what is pasted. -/
def Clean : Field → Bool
  | paste cs => Pasteable cs
  | field => field.fits

end Field

/-! ## Rows -/

def OrderType.code : OrderType → ℕ
  | limit => 1
  | market => 2

def OrderSide.code : OrderSide → ℕ
  | ask => 1
  | bid => 2

def MarketRole.code : MarketRole → ℕ
  | maker => 1
  | taker => 2

/-- A `NULL` under `%s` is printed as "(null)". -/
def Order.showSource {D : Type} (order : Order D) : List Char :=
  (order.source.getD "(null)").toList

/-- A tuple with its times: of an order, when it was made and when it was last changed. -/
structure Stamped (D : Type) where
  row : SqlRow D
  time : ℕ
  finishTime : ℕ

section Fields

variable {D : Type} (p : Printer D)

/-- The tuple of `append_user_order` and of `append_order_detail`. -/
def orderFields (order : Order D) (createTime finishTime : ℕ) : List Field :=
  [.nat order.id, .time createTime, .time finishTime, .nat order.userId,
    .paste order.market.toList, .paste order.showSource, .nat order.type.code,
    .nat order.side.code, .sci (p.toSci order.price), .sci (p.toSci order.amount),
    .sci (p.toSci order.takerFee), .sci (p.toSci order.makerFee), .sci (p.toSci order.dealStock),
    .sci (p.toSci order.dealMoney), .sci (p.toSci order.dealFee)]

def Stamped.fields (r : Stamped D) : List Field :=
  match r.row with
  | .userBalance userId asset business change balance detail =>
    [.null, .time r.time, .nat userId, .paste asset.toList, .paste business.toList,
      .sci (p.toSci change), .sci (p.toSci balance), .escape (p.dumps detail)]
  | .userOrder order => orderFields p order r.time r.finishTime
  | .userDeal userId market dealId orderId dealOrderId side role price amount deal fee dealFee =>
    [.null, .time r.time, .nat userId, .paste market.toList, .nat dealId, .nat orderId,
      .nat dealOrderId, .nat side.code, .nat role.code, .sci (p.toSci price),
      .sci (p.toSci amount), .sci (p.toSci deal), .sci (p.toSci fee), .sci (p.toSci dealFee)]
  | .orderDetail order => orderFields p order r.time r.finishTime
  | .orderDeal userId dealId orderId dealOrderId role price amount deal fee dealFee =>
    [.null, .time r.time, .nat userId, .nat dealId, .nat orderId, .nat dealOrderId,
      .nat role.code, .sci (p.toSci price), .sci (p.toSci amount), .sci (p.toSci deal),
      .sci (p.toSci fee), .sci (p.toSci dealFee)]

/-- The values that the tuple means. -/
def Stamped.literals (r : Stamped D) : List Literal := (r.fields p).map Field.literal

def Stamped.Clean (r : Stamped D) : Bool := (r.fields p).all Field.Clean

end Fields

def orderColumns : List String :=
  ["id", "create_time", "finish_time", "user_id", "market", "source", "t", "side", "price",
    "amount", "taker_fee", "maker_fee", "deal_stock", "deal_money", "deal_fee"]

def HistoryType.columns : HistoryType → List String
  | userBalance => ["id", "time", "user_id", "asset", "business", "change", "balance", "detail"]
  | userOrder => orderColumns
  | userDeal =>
    ["id", "time", "user_id", "market", "deal_id", "order_id", "deal_order_id", "side", "role",
      "price", "amount", "deal", "fee", "deal_fee"]
  | orderDetail => orderColumns
  | orderDeal =>
    ["id", "time", "user_id", "deal_id", "order_id", "deal_order_id", "role", "price", "amount",
      "deal", "fee", "deal_fee"]

def HistoryType.table : HistoryType → String
  | userBalance => "balance_history_"
  | userOrder => "order_history_"
  | userDeal => "user_deal_history_"
  | orderDetail => "order_detail_"
  | orderDeal => "deal_history_"

def DictSqlKey.table (key : DictSqlKey) : List Char := key.type.table.toList ++ showNat key.hash

def DictSqlKey.columns (key : DictSqlKey) : List (List Char) := key.type.columns.map String.toList

/-! ## The queue -/

/-- An `sds` of `dict_sql`. Its rows are recorded for the theorems only. -/
structure Statement (D : Type) where
  rows : List (Stamped D)
  text : List Char

/-- `sdsempty`. -/
def Statement.empty {D : Type} : Statement D := ⟨[], []⟩

/-- The variables of `me_history.c`, and what the job has been handed. -/
structure SqlQueue (D : Type) where
  dictSql : Dict DictSqlKey (Statement D)
  handed : List (DictSqlKey × Statement D)
  overrun : Bool

/-- One more tuple: `sdslen` tells if it is the first. -/
def Statement.add {D : Type} (p : Printer D) (key : DictSqlKey) (sql : Statement D)
    (r : Stamped D) : Statement D where
  rows := sql.rows ++ [r]
  text :=
    (if sql.text.length = 0 then insertHeader key.table key.columns else sql.text ++ [',', ' ']) ++
      tuple ((r.fields p).map Field.text)

namespace SqlQueue

variable {D : Type} (p : Printer D)

def init : SqlQueue D := ⟨∅, [], false⟩

/-- `get_sql`, the tuple, `set_sql`. -/
def appendSql (q : SqlQueue D) (key : DictSqlKey) (r : Stamped D) : SqlQueue D :=
  if (r.fields p).all Field.fits then
    { q with
      dictSql := q.dictSql.insert key (((q.dictSql.find key).getD .empty).add p key r) }
  else { q with overrun := true }

/-- An `append_*_history` function, at some times. -/
def append (q : SqlQueue D) (row : HistoryRow D × ℕ × ℕ) : SqlQueue D :=
  (sqlRows row.1).foldl (fun q kr => q.appendSql p kr.1 ⟨kr.2, row.2.1, row.2.2⟩) q

def onTimer (q : SqlQueue D) (entries : List (DictSqlKey × Statement D)) : SqlQueue D :=
  { q with dictSql := ∅, handed := q.handed ++ entries }

/-- The queue after these appends, and timers at any moments. -/
inductive Run : List (HistoryRow D × ℕ × ℕ) → SqlQueue D → Prop
  | init : Run [] init
  | append {rows : List (HistoryRow D × ℕ × ℕ)} {q : SqlQueue D} (row : HistoryRow D × ℕ × ℕ) :
    Run rows q → Run (rows ++ [row]) (q.append p row)
  | timer {rows : List (HistoryRow D × ℕ × ℕ)} {q : SqlQueue D}
      {entries : List (DictSqlKey × Statement D)} :
    Run rows q → Iterates q.dictSql entries → Run rows (q.onTimer entries)

end SqlQueue

/-! ## What is written is read back -/

theorem isDigit_showNat {n : ℕ} {c : Char} (h : c ∈ showNat n) : c.isDigit = true :=
  Nat.isDigit_of_mem_toDigits (by norm_num) le_rfl h

theorem showNat_ne_nil (n : ℕ) : showNat n ≠ [] := Nat.toDigits_ne_nil

/-- Digits and points are a numeral. -/
theorem isNumeral_of_digits {cs : List Char} (hne : cs ≠ [])
    (h : ∀ c ∈ cs, c.isDigit = true ∨ c = '.') : isNumeral cs = true := by
  have hhead : ¬cs.head? = some '-' := by
    intro hminus
    rcases h '-' (List.mem_of_mem_head? hminus) with hc | hc <;> revert hc <;> decide
  unfold isNumeral
  simp only [if_neg hhead, Bool.and_eq_true, List.all_eq_true]
  refine ⟨by simpa using hne, fun c hc => ?_⟩
  rcases h c hc with hc | rfl
  · simp [hc]
  · rfl

theorem isNumeral_showNat (n : ℕ) : isNumeral (showNat n) = true :=
  isNumeral_of_digits (showNat_ne_nil n) fun _ hc => Or.inl (isDigit_showNat hc)

theorem isNumeral_showTime (t : ℕ) : isNumeral (showTime t) = true := by
  refine isNumeral_of_digits (by simp [showTime]) fun c hc => ?_
  simp only [showTime, List.mem_append, List.mem_cons, List.mem_replicate] at hc
  rcases hc with hc | rfl | ⟨-, rfl⟩ | hc
  · exact Or.inl (isDigit_showNat hc)
  · exact Or.inr rfl
  · exact Or.inl rfl
  · exact Or.inl (isDigit_showNat hc)

theorem pasteable_of_all {cs : List Char} (h : ∀ c ∈ cs, c ≠ apostrophe ∧ c ≠ backslash) :
    Pasteable cs = true := by
  induction cs with
  | nil => rfl
  | cons c cs ih =>
    obtain ⟨hquote, hslash⟩ := h c (List.mem_cons_self ..)
    rw [Pasteable.eq_def]
    simp only [if_neg hquote, if_neg hslash]
    exact ih fun c' hc' => h c' (List.mem_cons_of_mem _ hc')

theorem pasteable_sci (cs : Sci) : Pasteable cs.1 = true := by
  refine pasteable_of_all fun c hc => ?_
  have hsci : isSci c = true := List.all_eq_true.mp cs.2 c hc
  constructor
  · rintro rfl
    exact absurd hsci (by decide)
  · rintro rfl
    exact absurd hsci (by decide)

theorem written_field {field : Field} (h : field.Clean = true) :
    Sql.Written field.literal field.text := by
  cases field with
  | null => exact written_null
  | nat n => exact written_number (isNumeral_showNat n)
  | time t => exact written_number (isNumeral_showTime t)
  | sci cs => exact written_paste (pasteable_sci cs)
  | paste cs => exact written_paste h
  | escape cs => exact written_escape cs

section Statements

variable {D : Type} {p : Printer D}

theorem written_row {r : Stamped D} (h : r.Clean p = true) :
    List.Forall₂ Sql.Written (r.literals p) ((r.fields p).map Field.text) := by
  have hclean : ∀ field ∈ r.fields p, field.Clean = true := List.all_eq_true.mp h
  unfold Stamped.literals
  rw [List.forall₂_map_left_iff, List.forall₂_map_right_iff]
  exact List.forall₂_same.mpr fun field hfield => written_field (hclean field hfield)

theorem fields_ne_nil (r : Stamped D) : r.fields p ≠ [] := by
  unfold Stamped.fields
  split <;> exact List.cons_ne_nil _ _

theorem fits_of_clean {r : Stamped D} (h : r.Clean p = true) :
    (r.fields p).all Field.fits = true := by
  refine List.all_eq_true.mpr fun field hfield => ?_
  have hclean := List.all_eq_true.mp h field hfield
  cases field <;> first | rfl | exact hclean

theorem backquote_table (key : DictSqlKey) : backquote ∉ key.table := by
  have htable : ∀ type : HistoryType, backquote ∉ type.table.toList := by
    intro type
    cases type <;> decide
  intro hmem
  rcases List.mem_append.mp hmem with hmem | hmem
  · exact htable key.type hmem
  · exact absurd (isDigit_showNat hmem) (by decide)

theorem backquote_columns (key : DictSqlKey) : ∀ cs ∈ key.columns, backquote ∉ cs := by
  have hcolumns : ∀ type : HistoryType, ∀ cs ∈ type.columns.map String.toList, backquote ∉ cs := by
    intro type
    cases type <;> decide +kernel
  exact hcolumns key.type

theorem columns_ne_nil (key : DictSqlKey) : key.columns ≠ [] := by
  have hcolumns : ∀ type : HistoryType, type.columns ≠ [] := by
    intro type
    cases type <;> exact List.cons_ne_nil _ _
  exact mt List.map_eq_nil_iff.mp (hcolumns key.type)

variable (p) in
/-- The text of some rows. -/
def rowsText (key : DictSqlKey) (rows : List (Stamped D)) : List Char :=
  insertText key.table key.columns (rows.map fun r => (r.fields p).map Field.text)

/-- What holds of every statement: it is the text of its rows, and there are some. -/
structure Statement.Good (p : Printer D) (key : DictSqlKey) (sql : Statement D) : Prop where
  some : sql.rows ≠ []
  text : sql.text = rowsText p key sql.rows
  clean : ∀ r ∈ sql.rows, r.Clean p = true

theorem Statement.Good.reads {key : DictSqlKey} {sql : Statement D} (h : sql.Good p key) :
    readInsert sql.text = .some ⟨key.table, key.columns, sql.rows.map (Stamped.literals p)⟩ := by
  rw [h.text]
  refine readInsert_insertText (backquote_table key) (backquote_columns key) (columns_ne_nil key)
    (by simpa using h.some) ?_ ?_
  · intro row hrow
    obtain ⟨r, -, rfl⟩ := List.mem_map.mp hrow
    exact mt List.map_eq_nil_iff.mp (fields_ne_nil r)
  · rw [List.forall₂_map_left_iff, List.forall₂_map_right_iff]
    exact List.forall₂_same.mpr fun r hr => written_row (h.clean r hr)

theorem commaSep_snoc {items : List (List Char)} (h : items ≠ []) (item : List Char) :
    commaSep (items ++ [item]) = commaSep items ++ [',', ' '] ++ item := by
  induction items with
  | nil => exact absurd rfl h
  | cons first items ih =>
    cases items with
    | nil => rfl
    | cons second items =>
      have hrest := ih (List.cons_ne_nil _ _)
      have hunfold : ∀ more, commaSep (first :: second :: more) =
          first ++ [',', ' '] ++ commaSep (second :: more) := fun _ => rfl
      simp only [List.cons_append] at hrest ⊢
      rw [hunfold, hunfold, hrest]
      simp only [List.append_assoc]

theorem rowsText_ne_nil (key : DictSqlKey) (rows : List (Stamped D)) :
    rowsText p key rows ≠ [] := by
  unfold rowsText insertText insertHeader
  generalize "INSERT INTO ".toList = insert
  simp

theorem Statement.Good.add {key : DictSqlKey} {sql : Statement D} (h : sql.Good p key)
    {r : Stamped D} (hr : r.Clean p = true) : (sql.add p key r).Good p key where
  some := by simp [Statement.add]
  text := by
    have hlen : sql.text.length ≠ 0 := by
      rw [h.text]
      exact mt List.length_eq_zero_iff.mp (rowsText_ne_nil key sql.rows)
    have hrows : (sql.rows.map fun r => (r.fields p).map Field.text).map tuple ≠ [] := by
      simpa using h.some
    simp only [Statement.add, if_neg hlen]
    rw [h.text, rowsText, rowsText, insertText, insertText, List.map_append, List.map_append,
      List.map_singleton, List.map_singleton, commaSep_snoc hrows]
    simp only [List.append_assoc]
  clean := by
    intro r' hr'
    rcases List.mem_append.mp hr' with hr' | hr'
    · exact h.clean r' hr'
    · obtain rfl := List.mem_singleton.mp hr'
      exact hr

theorem Statement.good_first {key : DictSqlKey} {r : Stamped D} (hr : r.Clean p = true) :
    (Statement.empty.add p key r).Good p key where
  some := by simp [Statement.add, Statement.empty]
  text := by simp [Statement.add, Statement.empty, rowsText, insertText, commaSep]
  clean := by
    intro r' hr'
    obtain rfl := List.mem_singleton.mp hr'
    exact hr

end Statements

/-! ## Runs -/

namespace SqlQueue

variable {D : Type} {p : Printer D}

/-- Every statement is the text of its rows. -/
structure Good (p : Printer D) (q : SqlQueue D) : Prop where
  dict : ∀ key sql, q.dictSql.find key = some sql → sql.Good p key
  queue : ∀ entry ∈ q.handed, entry.2.Good p entry.1
  safe : q.overrun = false

theorem Good.appendSql {q : SqlQueue D} (h : q.Good p) {key : DictSqlKey} {r : Stamped D}
    (hr : r.Clean p = true) : (q.appendSql p key r).Good p := by
  unfold SqlQueue.appendSql
  rw [if_pos (fits_of_clean hr)]
  refine ⟨fun key' sql hfind => ?_, h.queue, h.safe⟩
  simp only [Dict.find_insert] at hfind
  split_ifs at hfind with heq
  · subst heq
    obtain rfl := Option.some.inj hfind
    cases hold : q.dictSql.find key' with
    | none => exact Statement.good_first hr
    | some sql => exact (h.dict key' sql hold).add hr
  · exact h.dict key' sql hfind

/-- The tuples of a row, at its times. -/
def stamp (row : HistoryRow D × ℕ × ℕ) : List (Stamped D) :=
  (sqlRows row.1).map fun kr => ⟨kr.2, row.2.1, row.2.2⟩

theorem Good.append {q : SqlQueue D} (h : q.Good p) {row : HistoryRow D × ℕ × ℕ}
    (hrow : ∀ r ∈ stamp row, r.Clean p = true) : (q.append p row).Good p := by
  unfold SqlQueue.append
  have hrow : ∀ kr ∈ sqlRows row.1,
      Stamped.Clean p ⟨kr.2, row.2.1, row.2.2⟩ = true := fun kr hkr =>
    hrow _ (List.mem_map.mpr ⟨kr, hkr, rfl⟩)
  generalize sqlRows row.1 = krs at hrow ⊢
  induction krs generalizing q with
  | nil => exact h
  | cons kr krs ih =>
    have hfirst := hrow kr (List.mem_cons_self ..)
    exact ih (h.appendSql hfirst) fun kr' hkr' => hrow kr' (List.mem_cons_of_mem _ hkr')

/-- The tuples of the statements. -/
def tuples (q : SqlQueue D) : Multiset (Stamped D) :=
  q.handed.flatMap (fun entry => entry.2.rows) + q.dictSql.pool Statement.rows

theorem tuples_appendSql {q : SqlQueue D} (key : DictSqlKey) {r : Stamped D}
    (hr : r.Clean p = true) : (q.appendSql p key r).tuples = q.tuples + {r} := by
  unfold SqlQueue.appendSql tuples
  rw [if_pos (fits_of_clean hr), add_assoc]
  congr 1
  apply Dict.pool_insert
  cases q.dictSql.find key <;> rfl

theorem tuples_append {q : SqlQueue D} {row : HistoryRow D × ℕ × ℕ}
    (hrow : ∀ r ∈ stamp row, r.Clean p = true) :
    (q.append p row).tuples = q.tuples + (stamp row : Multiset (Stamped D)) := by
  unfold SqlQueue.append
  unfold stamp at hrow ⊢
  generalize sqlRows row.1 = krs at hrow ⊢
  induction krs generalizing q with
  | nil => simp
  | cons kr krs ih =>
    have hfirst := tuples_appendSql (q := q) kr.1 (hrow _ (List.mem_cons_self ..))
    have hrest := @ih (q.appendSql p kr.1 ⟨kr.2, row.2.1, row.2.2⟩) fun r hr =>
      hrow r (List.mem_cons_of_mem _ hr)
    rw [List.foldl_cons, hrest, hfirst, add_assoc, List.map_cons, ← Multiset.cons_coe,
      Multiset.singleton_add]

theorem tuples_onTimer {q : SqlQueue D} {entries : List (DictSqlKey × Statement D)}
    (hi : Iterates q.dictSql entries) : (q.onTimer entries).tuples = q.tuples := by
  have hpool : q.dictSql.pool Statement.rows =
      (entries.flatMap fun entry => entry.2.rows : List (Stamped D)) := by
    unfold Dict.pool
    rw [hi, Multiset.coe_bind]
    congr 1
    rw [List.flatMap_map]
  unfold tuples
  rw [hpool, onTimer, Dict.pool_empty, add_zero, List.flatMap_append, ← Multiset.coe_add]

theorem Good.timer {q : SqlQueue D} (h : q.Good p) {entries : List (DictSqlKey × Statement D)}
    (hi : Iterates q.dictSql entries) : (q.onTimer entries).Good p where
  dict key sql hfind := by simp [onTimer] at hfind
  queue entry hmem := by
    rcases List.mem_append.mp hmem with hmem | hmem
    · exact h.queue entry hmem
    · refine h.dict entry.1 entry.2 (Finmap.mem_lookup_iff.mpr ?_)
      rw [hi]
      exact Multiset.mem_coe.mpr (List.mem_map.mpr ⟨entry, hmem, rfl⟩)
  safe := h.safe

/-- Clean rows make good statements, and all of them are in one, whenever the timer runs. -/
theorem Run.good {rows : List (HistoryRow D × ℕ × ℕ)} {q : SqlQueue D} (h : Run p rows q)
    (hclean : ∀ row ∈ rows, ∀ r ∈ stamp row, r.Clean p = true) :
    q.Good p ∧ q.tuples = (rows.flatMap stamp : Multiset (Stamped D)) := by
  induction h with
  | init =>
    exact ⟨⟨fun key sql hfind => by simp [SqlQueue.init] at hfind, by simp [SqlQueue.init], rfl⟩,
      rfl⟩
  | append row _ ih =>
    obtain ⟨hgood, htuples⟩ := ih fun row' hmem => hclean row' (List.mem_append_left _ hmem)
    have hrow := hclean row (List.mem_append_right _ (List.mem_singleton_self row))
    refine ⟨hgood.append hrow, ?_⟩
    rw [tuples_append hrow, htuples, List.flatMap_append, List.flatMap_singleton, Multiset.coe_add]
  | timer _ hi ih =>
    obtain ⟨hgood, htuples⟩ := ih hclean
    exact ⟨hgood.timer hi, (tuples_onTimer hi).trans htuples⟩

end SqlQueue

end ViabtcExchange
