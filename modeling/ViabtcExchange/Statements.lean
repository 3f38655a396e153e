import ViabtcExchange.HistorySql
import ViabtcExchange.Replay
import ViabtcExchange.Texts

/-!
# The statements a process writes

A process serves requests, and appends the rows its engine records to the statements of
`me_history.c` at once; the timer hands the statements to the job at any moment between them.

**Theorem (`Historian.statements_read_back`).** When the configured names, and the businesses,
sources and details of the accepted requests, can be written as they are, each statement is read
back as one `INSERT` of exactly its rows, and the statements have all the rows.

Nothing in the code asks that of a request, and one business with a quote in it breaks the statement
of everything appended with it (`quoted_business`).
-/

namespace ViabtcExchange

open Sql

variable {D : Type} {mpd : Mpd D} {p : Printer D}

/-- What can be written as it is: strings that are pasted, and details that fit the buffer. The
detail of a trade has the name of its market. -/
def Printer.vocabulary (p : Printer D) : Vocabulary where
  asset name := Pasteable name.toList = true
  market name := Pasteable name.toList = true ∧ ∀ orderId price amount feeRate,
    (Field.escape (p.dumps (.trade name orderId price amount feeRate))).fits = true
  word text := Pasteable text.toList = true
  detail d := (Field.escape (p.dumps (.update d))).fits = true

/-- The server, its statements, and the rows appended to them, each with its times. -/
structure Historian (D : Type) where
  server : Server D
  queue : SqlQueue D
  rows : List (HistoryRow D × ℕ × ℕ)

namespace Historian

def start (s : Server D) : Historian D := ⟨s, .init, []⟩

/-- The process from `s₀` on, as long as every event is `ok` when it comes. -/
inductive Run (mpd : Mpd D) (p : Printer D) (ok : Server D → Event → Prop) (s₀ : Server D) :
    Historian D → Prop
  | start : Run mpd p ok s₀ (start s₀)
  | event {w : Historian D} {s : Server D} {rows : List (HistoryRow D × ℕ × ℕ)} (event : Event) :
    Run mpd p ok s₀ w → ok w.server event → w.server.handle mpd event = some s →
      s.engine.statics.history = w.server.engine.statics.history ++ rows.map Prod.fst →
        Run mpd p ok s₀ ⟨s, rows.foldl (SqlQueue.append p) w.queue, w.rows ++ rows⟩
  | timer {w : Historian D} {entries : List (DictSqlKey × Statement D)} :
    Run mpd p ok s₀ w → Iterates w.queue.dictSql entries →
      Run mpd p ok s₀ { w with queue := w.queue.onTimer entries }

/-- The requests that are accepted say nothing that cannot be written as it is. -/
def Writable (mpd : Mpd D) (p : Printer D) (s : Server D) : Event → Prop
  | .request _ command params padding now =>
    ∀ s' op, Server.Served mpd s command params padding now s' op → op.Says p.vocabulary
  | .expire _ => True

/-- Every statement is read back as the rows it was made of, and they are the rows appended. -/
structure Faithful (p : Printer D) (w : Historian D) : Prop where
  safe : w.queue.overrun = false
  handed : ∀ entry ∈ w.queue.handed, readInsert entry.2.text =
    some ⟨entry.1.table, entry.1.columns, entry.2.rows.map (Stamped.literals p)⟩
  pending : ∀ key sql, w.queue.dictSql.find key = some sql → readInsert sql.text =
    some ⟨key.table, key.columns, sql.rows.map (Stamped.literals p)⟩
  rows : w.queue.tuples = (w.rows.flatMap SqlQueue.stamp : Multiset (Stamped D))

end Historian

/-! ## Rows that can be written -/

theorem clean_orderFields {order : Order D} (h : order.Says p.vocabulary) (t t' : ℕ) :
    (orderFields p order t t').all Field.Clean = true := by
  have hmarket : Pasteable order.market.toList = true := h.market.1
  have hsource : Pasteable order.showSource = true := by
    unfold Order.showSource
    cases hs : order.source with
    | none => decide
    | some source => exact h.source source hs
  simp [orderFields, Field.Clean, Field.fits, hmarket, hsource]

theorem clean_of_says {row : HistoryRow D} (h : row.Says p.vocabulary) (t t' : ℕ) :
    ∀ r ∈ SqlQueue.stamp (row, t, t'), r.Clean p = true := by
  intro r hr
  obtain ⟨⟨key, sql⟩, hkr, rfl⟩ := List.mem_map.mp hr
  cases row with
  | order order =>
    have hfields := clean_orderFields h t t'
    simp only [sqlRows, List.mem_cons, List.not_mem_nil, or_false, Prod.mk.injEq] at hkr
    rcases hkr with ⟨-, rfl⟩ | ⟨-, rfl⟩
    · exact hfields
    · exact hfields
  | deal dealId ask askRole bid bidRole terms =>
    have hmarket : Pasteable ask.market.toList = true := h.1.market.1
    simp only [sqlRows, List.mem_cons, List.not_mem_nil, or_false, appendOrderDeal, appendUserDeal,
      Prod.mk.injEq] at hkr
    rcases hkr with ⟨-, rfl⟩ | ⟨-, rfl⟩ | ⟨-, rfl⟩ | ⟨-, rfl⟩ <;>
      simp [Stamped.Clean, Stamped.fields, Field.Clean, Field.fits, hmarket]
  | balance userId asset business change balance detail =>
    obtain ⟨hasset, hbusiness, hdetail⟩ := h
    have hfits : (Field.escape (p.dumps detail)).fits = true := by
      cases detail with
      | trade market orderId price amount feeRate => exact hdetail.2 orderId price amount feeRate
      | update d => exact hdetail
    have hasset : Pasteable asset.toList = true := hasset
    have hbusiness : Pasteable business.toList = true := hbusiness
    simp only [sqlRows, List.mem_singleton, Prod.mk.injEq] at hkr
    obtain ⟨-, rfl⟩ := hkr
    simp only [Stamped.Clean, Stamped.fields, List.all_cons, Field.Clean, hasset, hbusiness, hfits,
      List.all_nil]
    rfl

/-! ## Runs -/

namespace Historian

/-- An event leaves the configuration alone, and records rows that can be written. -/
theorem says_handle {s s' : Server D} {event : Event} (h : s.engine.Says p.vocabulary)
    (hok : Writable mpd p s event) (hs : s.handle mpd event = some s') :
    s'.engine.Says p.vocabulary ∧
      s'.engine.statics.Says p.vocabulary s.engine.statics.history := by
  have hold : s.engine.statics.Says p.vocabulary s.engine.statics.history :=
    ⟨[], (List.append_nil _).symm, fun row hrow => absurd hrow List.not_mem_nil⟩
  cases event with
  | expire now =>
    cases hs
    exact ⟨⟨h.assets, h.markets⟩, hold⟩
  | request blocked command params padding now =>
    obtain ⟨⟨reply, s₁⟩, hserve, rfl⟩ := Option.map_eq_some_iff.mp hs
    rcases Server.onRecvPkg_cases hserve with ⟨-, rfl⟩ | ⟨-, op, hserved⟩
    · exact ⟨h, hold⟩
    · have htrade : p.vocabulary.word "trade" := by
        show Pasteable "trade".toList = true
        decide
      exact h.step htrade (hok _ op hserved) hserved.step

theorem Run.says_server {s₀ : Server D} {w : Historian D} (h : Run mpd p (Writable mpd p) s₀ w)
    (hnames : s₀.engine.Says p.vocabulary) : w.server.engine.Says p.vocabulary ∧
      ∀ row ∈ w.rows, row.1.Says p.vocabulary := by
  induction h with
  | start => exact ⟨hnames, fun row hrow => absurd hrow List.not_mem_nil⟩
  | @event w s rows event _ hok hs hrows ih =>
    obtain ⟨hengine, hall⟩ := ih
    obtain ⟨hengine', new, hnew, hsays⟩ := says_handle hengine hok hs
    have hsame : rows.map Prod.fst = new := List.append_cancel_left (hrows.symm.trans hnew)
    refine ⟨hengine', fun row hrow => ?_⟩
    rcases List.mem_append.mp hrow with hrow | hrow
    · exact hall row hrow
    · exact hsays row.1 (hsame ▸ List.mem_map_of_mem hrow)
  | timer _ _ ih => exact ih

/-- The statements are those of `me_history.c` alone. -/
theorem Run.queue {ok : Server D → Event → Prop} {s₀ : Server D} {w : Historian D}
    (h : Run mpd p ok s₀ w) : SqlQueue.Run p w.rows w.queue := by
  have happend : ∀ {rows rows' : List (HistoryRow D × ℕ × ℕ)} {q : SqlQueue D},
      SqlQueue.Run p rows q →
        SqlQueue.Run p (rows ++ rows') (rows'.foldl (SqlQueue.append p) q) := by
    intro rows rows'
    induction rows' generalizing rows with
    | nil => exact fun h => by simpa using h
    | cons row rows' ih => exact fun h => by simpa using ih (h.append row)
  induction h with
  | start => exact .init
  | event event _ _ _ _ ih => exact happend ih
  | timer _ hi ih => exact ih.timer hi

/-- **Statements are read back as their rows**, as long as no accepted request says anything that
cannot be written as it is. -/
theorem statements_read_back {s₀ : Server D} {w : Historian D}
    (hnames : s₀.engine.Says p.vocabulary) (h : Run mpd p (Writable mpd p) s₀ w) :
    w.Faithful p := by
  have hclean : ∀ row ∈ w.rows, ∀ r ∈ SqlQueue.stamp row, r.Clean p = true := fun row hrow =>
    clean_of_says ((h.says_server hnames).2 row hrow) row.2.1 row.2.2
  obtain ⟨hgood, htuples⟩ := h.queue.good hclean
  exact
    { safe := hgood.safe
      handed := fun entry hentry => (hgood.queue entry hentry).reads
      pending := fun key sql hfind => (hgood.dict key sql hfind).reads
      rows := htuples }

section Examples

/-- How the values of the examples below are printed. -/
def examplePrinter : Printer ℚ where
  toSci x := if x = 1 then ⟨"1.00000000".toList, by decide⟩ else ⟨"0".toList, by decide⟩
  dumps _ := "\x7b\"id\": 1\x7d".toList

def exampleUpdate (business : String) : Event :=
  .request false .balanceUpdate
    [.integer 1, .string "BTC", .string business, .integer 1, .string "1", .object []] 0 0

/-- A new process after one balance update. -/
def exampleHistorian (business : String) : Option (Historian ℚ) :=
  exampleServer.bind fun s => (s.handle decimal128 (exampleUpdate business)).map fun s' =>
    let rows := s'.engine.statics.history.map fun row => (row, 0, 0)
    ⟨s', rows.foldl (SqlQueue.append examplePrinter) .init, rows⟩

theorem examplePrinter_fits (detail : Detail ℚ) :
    (Field.escape (examplePrinter.dumps detail)).fits = true := by
  have hfits : (Field.escape "\x7b\"id\": 1\x7d".toList).fits = true := by decide +kernel
  exact hfits

theorem exampleNames {s : Server ℚ} (h : exampleServer = some s) :
    s.engine.Says examplePrinter.vocabulary := by
  obtain ⟨e₀, hinit, rfl⟩ := Option.map_eq_some_iff.mp h
  refine Engine.init_says hinit (fun asset hasset => ?_) fun conf hconf => ?_
  · have hcases : asset = "BTC" ∨ asset = "CNY" := by
      by_contra hne
      simp only [not_or] at hne
      simp only [exampleAssets, Finmap.mem_insert, hne.1, hne.2, false_or] at hasset
      exact Finmap.notMem_empty hasset
    rcases hcases with rfl | rfl
    · show Pasteable "BTC".toList = true
      decide
    · show Pasteable "CNY".toList = true
      decide
  · obtain rfl := List.mem_singleton.mp hconf
    refine ⟨?_, fun _ _ _ _ => examplePrinter_fits _⟩
    show Pasteable "BTCCNY".toList = true
    decide

theorem exampleHistorian_run (ok : Server ℚ → Event → Prop) {business : String}
    {w : Historian ℚ} (h : exampleHistorian business = some w)
    (hok : ∀ s, ok s (exampleUpdate business)) :
    ∃ s₀, exampleServer = some s₀ ∧ Run decimal128 examplePrinter ok s₀ w := by
  obtain ⟨s₀, hs₀, h⟩ := Option.bind_eq_some_iff.mp h
  obtain ⟨s, hs, rfl⟩ := Option.map_eq_some_iff.mp h
  refine ⟨s₀, hs₀, ?_⟩
  have hempty : s₀.engine.statics.history = [] := by
    obtain ⟨e₀, hinit, rfl⟩ := Option.map_eq_some_iff.mp hs₀
    show e₀.statics.history = []
    rw [Engine.init_statics hinit]
  refine Run.event _ .start (hok _) hs ?_
  rw [show (start s₀).server = s₀ from rfl, hempty, List.nil_append, List.map_map]
  exact (List.map_id _).symm

theorem statements_read_back_deposit : ∃ s₀ w, exampleServer = some s₀ ∧
    Run decimal128 examplePrinter (Writable decimal128 examplePrinter) s₀ w ∧
      w.rows.length = 1 ∧ w.Faithful examplePrinter := by
  have hcheck : (exampleHistorian "deposit").any (fun w => w.rows.length = 1) = true := by
    decide +kernel
  obtain ⟨w, hw, hlen⟩ := (Option.any_eq_true _ _).mp hcheck
  have hok : ∀ s, Writable decimal128 examplePrinter s (exampleUpdate "deposit") := by
    intro s s' op hserved
    obtain ⟨args, hargs, rfl⟩ := read_map.mp hserved.read
    obtain ⟨-, -, -, -, hbusiness, -, -, -⟩ := readUpdateBalance_ok.mp hargs
    have hbusiness : args.business = "deposit" := by simpa using hbusiness.symm
    have hword : Pasteable args.business.toList = true := by
      rw [hbusiness]
      decide +kernel
    exact ⟨hword, examplePrinter_fits _⟩
  obtain ⟨s₀, hs₀, hrun⟩ := exampleHistorian_run _ hw hok
  exact ⟨s₀, w, hs₀, hrun, of_decide_eq_true hlen, statements_read_back (exampleNames hs₀) hrun⟩

/-- **A quote in the business of an update** ends the string it is pasted into. -/
theorem quoted_business : ¬ ∀ (p : Printer ℚ) (s₀ : Server ℚ) (w : Historian ℚ),
    s₀.engine.Says p.vocabulary → Run decimal128 p (fun _ _ => True) s₀ w → w.Faithful p := by
  intro hall
  have hcheck : (exampleHistorian "it's").any (fun w =>
      (w.queue.dictSql.find ⟨.userBalance, 1⟩).any fun sql =>
        (readInsert sql.text).isNone) = true := by
    decide +kernel
  obtain ⟨w, hw, hbroken⟩ := (Option.any_eq_true _ _).mp hcheck
  obtain ⟨sql, hfind, hnone⟩ := (Option.any_eq_true _ _).mp hbroken
  obtain ⟨s₀, hs₀, hrun⟩ := exampleHistorian_run (fun _ _ => True) hw fun _ => trivial
  have hread := (hall examplePrinter s₀ w (exampleNames hs₀) hrun).pending _ _ hfind
  rw [hread] at hnone
  cases hnone

end Examples

end Historian

end ViabtcExchange
