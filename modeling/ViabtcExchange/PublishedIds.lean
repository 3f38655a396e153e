import ViabtcExchange.Incarnations

/-!
# Ids are not given out twice

The two counters come back from the slice and from the replay of the log behind it. A request that
a crash has lost before its entry was stored does not come back, and its ids are free again: the
history and the messages leave the process without waiting for the log (`published_twice`).

**Theorem (`World.ids_once`).** The ids of a request that no start has lost are not given to a later
one. This is for starts that miss no table of the log, and whose replay makes as many deals as the
requests did.

The invariant is `Numbered`: the requests that are not lost have the ids of the log from 1 on
(`World.live`), and the counters are the sums over them.
-/

namespace ViabtcExchange

variable {D : Type} {c : Settings D} {w w' : World D}

namespace System

variable {δ : Type} {localtime : ℤ → Tm} {start : ℕ} {s s' : System δ}

/-- What a step stores was on its way. -/
theorem stored_step (hs : Step localtime s s') {table : String} {row : ℕ × ℚ × δ}
    (h : s'.db.Stored table row) : s.db.Stored table row ∨ ∃ log ∈ s.logs, log.row = row := by
  have hquery : ∀ {o : Operlog δ} {db db' : Db δ} {sql : Sql δ} {answer : Db.Answer} {crashed : Bool},
      o.job.threads = [.busy sql] → Db.Query sql db answer db' → db'.Stored table row →
        db.Stored table row ∨ ∃ log ∈ (⟨o, db, crashed⟩ : System δ).logs, log.row = row := by
    intro o db db' sql answer crashed hbusy hq hst
    have hdone : db.execute sql = some db' →
        db.Stored table row ∨ ∃ log ∈ (⟨o, db, crashed⟩ : System δ).logs, log.row = row := by
      intro hexec
      refine ((Db.stored_execute hexec).mp hst).imp_right ?_
      rintro ⟨-, log, hlog, hrow⟩
      exact ⟨log, mem_logs_of_running hbusy hlog, hrow⟩
    cases hq with
    | ok hexec => exact hdone hexec
    | lost hexec => exact hdone hexec
    | duplicate hdup => exact Or.inl hst
    | error => exact Or.inl hst
  cases hs with
  | append createTime detail => exact Or.inl h
  | timer now => exact Or.inl h
  | wake hjob => exact Or.inl h
  | retry hbusy hq => exact hquery hbusy hq h
  | done hbusy hq hanswer hjob => exact hquery hbusy hq h
  | crash => exact Or.inl h
  | late hbusy hq => exact hquery hbusy hq h

/-- A step that appends nothing moves the entries about. -/
theorem Queued.logs_step (h : Queued start s) (hs : Step localtime s s')
    (hid : s'.operlog.operlogIdStart = s.operlog.operlogIdStart) : s'.logs = s.logs := by
  cases hs with
  | append createTime detail => exact absurd hid (Nat.succ_ne_self _)
  | @timer o db now => exact onTimer_logs localtime o db now
  | wake hjob => exact move_logs h.worker hjob _ _ _
  | retry hbusy hq => rfl
  | done hbusy hq hanswer hjob => exact move_logs h.worker hjob _ _ _
  | crash => rfl
  | late hbusy hq => rfl

end System

/-! ## Counting -/

namespace Service

/-- The deals a request has made. -/
def deals (sv : Service) : ℕ := sv.after.2 - sv.before.2

/-- The ids some requests take, one after the other. -/
def total (l : List Service) : ℕ × ℕ :=
  ((l.map (·.command.opens)).sum, (l.map deals).sum)

theorem total_append (l l' : List Service) : total (l ++ l') = total l + total l' := by
  simp [total]

theorem total_take_succ {l : List Service} {n : ℕ} {sv : Service} (h : l[n]? = some sv) :
    total (l.take (n + 1)) = total (l.take n) + (sv.command.opens, sv.deals) := by
  rw [List.take_add_one, h, total_append]
  simp [total]

theorem filter_loseAbove (n : ℕ) (l : List Service) :
    (l.map (loseAbove n)).filter (!·.lost) =
      (l.filter (!·.lost)).filter (fun sv => decide (sv.log.id ≤ n)) := by
  induction l with
  | nil => rfl
  | cons sv l ih =>
    rw [List.map_cons, List.filter_cons, List.filter_cons, ih]
    have hlost : (loseAbove n sv).lost = (sv.lost || decide (n < sv.log.id)) := rfl
    cases hsv : sv.lost with
    | true => simp [hlost, hsv]
    | false =>
      by_cases hle : sv.log.id ≤ n
      · have hsame : loseAbove n sv = sv := by
          obtain ⟨log, command, params, before, after, lost⟩ := sv
          have hnot : ¬n < log.id := not_lt.mpr hle
          simp only at hsv
          simp [loseAbove, hsv, hnot]
        simp [hsame, hsv, hle]
      · have hlt : n < sv.log.id := not_le.mp hle
        simp [hlost, hsv, hle, hlt]

/-- Consecutive ids up to `n` are a beginning of the list. -/
theorem filter_ids {n : ℕ} {l : List Service} : ∀ {start m : ℕ},
    l.map (·.log.id) = List.range' start m →
      l.filter (fun sv => decide (sv.log.id ≤ n)) = l.take (n + 1 - start) := by
  induction l with
  | nil =>
    intro start m h
    simp
  | cons sv l ih =>
    intro start m h
    cases m with
    | zero => simp at h
    | succ m =>
      rw [List.map_cons, List.range'_succ] at h
      obtain ⟨hid, hrest⟩ := List.cons.inj h
      rw [List.filter_cons, ih hrest]
      by_cases hle : sv.log.id ≤ n
      · rw [if_pos (by simpa using hle), show n + 1 - start = (n + 1 - (start + 1)) + 1 by omega,
          List.take_succ_cons]
      · rw [if_neg (by simpa using hle), show n + 1 - start = 0 by omega,
          show n + 1 - (start + 1) = 0 by omega]
        rfl

end Service

namespace World

/-- Any number of steps later. -/
abbrev Later (c : Settings D) : World D → World D → Prop :=
  Relation.ReflTransGen fun w w' => ∃ act, Step c w act w'

/-- The operation log and the database. -/
def system (w : World D) : System Json := ⟨w.server.operlog, w.db, w.crashed⟩

/-- The requests that no start has lost. -/
def live (w : World D) : List Service := w.served.filter (!·.lost)

/-- Every stored entry behind the slice is in a table that the start visits. -/
def Complete (c : Settings D) (w : World D) (now : ℚ) : Prop :=
  ∀ table row, w.db.Stored table row → sliceEnd w.last < row.1 →
    ∃ table', w.Visited c now table' ∧ w.db.Stored table' row

/-- A replayed request makes as many deals as it did. -/
def Repeats (c : Settings D) (w : World D) (env : ℕ → Engine.Surroundings) (now : ℚ) : Prop :=
  ∀ e₀ e₁ e₂ before sv, sliceEngine c.mpd c.dictAsset c.confs w.last = some e₀ →
    Applied (Engine.load c.mpd env) (e₀, sliceEnd w.last) (e₁, sliceEnd w.last + before.length)
      before →
    (∀ row ∈ before, ∃ table, w.Visited c now table ∧ w.db.Stored table row) → sv ∈ w.live →
    sv.log.id = sliceEnd w.last + before.length + 1 →
    e₁.load c.mpd env sv.log.row = some e₂ →
      e₂.statics.dealsIdStart = e₁.statics.dealsIdStart + sv.deals

/-- The condition on a start. -/
def Restores (c : Settings D) (w : World D) : Act D → Prop
  | .start env now _ => w.Complete c now ∧ w.Repeats c env now
  | _ => True

/-- The counters are the sums over the requests that are not lost. -/
structure Numbered (c : Settings D) (names : String → Prop) (w : World D) : Prop where
  configured : w.server.engine.Configured c.dictAsset names
  named : ∀ sv ∈ w.live, sv.command.Named c.dictAsset names sv.params ∧ sv.log.detail = sv.entry
  queued : ∃ start, System.Queued start w.system
  logs : ∀ log ∈ w.system.logs, ∃ sv ∈ w.live, sv.log = log
  stored : ∀ table row, w.db.Stored table row → ∃ sv ∈ w.live, sv.log.row = row
  ids : w.live.map (·.log.id) = List.range' 1 w.server.operlog.operlogIdStart
  counted : w.server.engine.ids = Service.total w.live
  sliced : sliceEnd w.last ≤ w.server.operlog.operlogIdStart
  slice : ∀ row, w.last = some row →
    (row.slice.endOrderId, row.slice.endDealsId) = Service.total (w.live.take row.endOperId)
  taken : ∀ i sv, w.live[i]? = some sv → sv.after = Service.total (w.live.take (i + 1))

variable {names : String → Prop}

/-! ## The live process -/

theorem numbered_boot {e : Engine D} (clock : ℚ) (h : e.Configured c.dictAsset names)
    (hids : e.ids = (0, 0)) : (boot e clock).Numbered c names where
  configured := h
  named := by simp [live, boot]
  queued := ⟨0, System.queued_boot 0 ∅⟩
  logs := by simp [System.logs, system, boot, initOperlog, Job.all, Job.create, Thread.running]
  stored table row hst := by
    obtain ⟨t, ht, -⟩ := hst
    simp [boot] at ht
  ids := by simp [live, boot, initOperlog]
  counted := hids
  sliced := Nat.zero_le _
  slice row hrow := by cases hrow
  taken i sv hsv := by simp [live, boot] at hsv

theorem Numbered.length (h : w.Numbered c names) :
    w.live.length = w.server.operlog.operlogIdStart := by
  have hlen := congrArg List.length h.ids
  simpa using hlen

/-- The place of a request is its id. -/
theorem Numbered.getElem (h : w.Numbered c names) {sv : Service} (hsv : sv ∈ w.live) :
    0 < sv.log.id ∧ w.live[sv.log.id - 1]? = some sv := by
  obtain ⟨i, hi, rfl⟩ := List.mem_iff_getElem.mp hsv
  have hid : (w.live[i]).log.id = 1 + i := by
    have hget : (w.live.map (·.log.id))[i]? = some (w.live[i]).log.id := by simp [hi]
    rw [h.ids, List.getElem?_range' (by rw [← h.length]; exact hi)] at hget
    have heq := Option.some.inj hget
    omega
  rw [hid]
  exact ⟨by omega, by rw [Nat.add_sub_cancel_left]; exact List.getElem?_eq_getElem hi⟩

/-- Time passes, and nothing else. -/
theorem Numbered.later (h : w.Numbered c names) {e : Engine D}
    (hconf : e.Configured c.dictAsset names) (hids : e.ids = w.server.engine.ids) (clock : ℚ) :
    ({ w with server := { w.server with engine := e }, clock := clock } : World D).Numbered c
      names where
  configured := hconf
  named := h.named
  queued := h.queued
  logs := h.logs
  stored := h.stored
  ids := h.ids
  counted := hids.trans h.counted
  sliced := h.sliced
  slice := h.slice
  taken := h.taken

theorem Numbered.accept {command : Command} {params : List Json} {padding : ℕ} {now : ℚ}
    {s : Server D} {op : Op D} (h : w.Numbered c names) (hup : w.crashed = false)
    (hserved : Server.Served c.mpd w.server command params padding now s op) :
    ({ w with server := s, clock := now, served := w.served ++ [w.service s command params now] } :
      World D).Numbered c names := by
  set sv := w.service s command params now with hsv
  set w' : World D := { w with server := s, clock := now, served := w.served ++ [sv] } with hw'
  have hlive : w'.live = w.live ++ [sv] := by
    have hlost : sv.lost = false := rfl
    simp [live, hw', hlost]
  have hlog : sv.log = ⟨w.server.operlog.operlogIdStart + 1, now,
      operDetail command.method (command.logged params)⟩ := by
    rw [hsv, World.service, hserved.log]
    rfl
  have hlogs : w'.system.logs = w.system.logs ++ [sv.log] := by
    have happ := System.append_logs w.server.operlog w.db now
      (operDetail command.method (command.logged params))
    rw [hlog]
    unfold system
    rw [hw', hserved.log, hup]
    exact happ
  have hid : s.operlog.operlogIdStart = w.server.operlog.operlogIdStart + 1 := by
    rw [hserved.log]
    rfl
  have hopens : s.engine.statics.orderIdStart =
      w.server.engine.statics.orderIdStart + command.opens := by
    rw [Engine.step_orderIdStart hserved.step]
    have hread := hserved.read
    cases command with
    | balanceUpdate =>
      obtain ⟨args, -, rfl⟩ := read_map.mp hread
      rfl
    | orderPutLimit =>
      obtain ⟨args, -, rfl⟩ := read_map.mp hread
      rfl
    | orderPutMarket =>
      obtain ⟨args, -, rfl⟩ := read_map.mp hread
      rfl
    | orderCancel =>
      obtain ⟨args, -, rfl⟩ := read_map.mp hread
      rfl
  have hdeals := Engine.step_dealsIdStart hserved.step
  have hcounted : s.engine.ids = Service.total (w.live ++ [sv]) := by
    rw [Service.total_append, ← h.counted]
    refine Prod.ext ?_ ?_
    · exact hopens.trans (by simp [Service.total, Engine.ids, hsv, World.service])
    · simp only [Service.total, Service.deals, Engine.ids, hsv, World.service, List.map_cons,
        List.map_nil, List.sum_cons, List.sum_nil, Prod.snd_add]
      omega
  refine ⟨h.configured.step hserved.step, ?_, ?_, ?_, ?_, ?_, hcounted.trans (by rw [hlive]), ?_,
    ?_, ?_⟩
  · intro sv' hsv'
    rw [hlive] at hsv'
    rcases List.mem_append.mp hsv' with hsv' | hsv'
    · exact h.named sv' hsv'
    · obtain rfl := List.mem_singleton.mp hsv'
      exact ⟨hserved.named h.configured, rfl⟩
  · obtain ⟨start, hqueued⟩ := h.queued
    refine ⟨start, ?_⟩
    have hstep : System.Step c.localtime ⟨w.server.operlog, w.db, false⟩
        ⟨w.server.operlog.append now (operDetail command.method (command.logged params)), w.db,
          false⟩ := .append now _
    unfold system at hqueued ⊢
    rw [hup] at hqueued
    rw [hw', hserved.log, hup]
    exact hqueued.step c.localtime hstep
  · intro log hlog'
    rw [hlogs] at hlog'
    rw [hlive]
    rcases List.mem_append.mp hlog' with hlog' | hlog'
    · obtain ⟨sv', hsv', heq⟩ := h.logs log hlog'
      exact ⟨sv', List.mem_append_left _ hsv', heq⟩
    · exact ⟨sv, List.mem_append_right _ (List.mem_singleton_self _),
        (List.mem_singleton.mp hlog').symm⟩
  · intro table row hst
    rw [hlive]
    obtain ⟨sv', hsv', heq⟩ := h.stored table row hst
    exact ⟨sv', List.mem_append_left _ hsv', heq⟩
  · rw [hlive, List.map_append, h.ids, hw', hid, List.range'_1_concat]
    simp [hlog, Nat.add_comm]
  · exact h.sliced.trans (by rw [hw', hid]; exact Nat.le_succ _)
  · intro row hrow
    have hle : row.endOperId ≤ w.live.length := by
      have hsliced := h.sliced
      rw [show w.last = some row from hrow] at hsliced
      exact hsliced.trans h.length.ge
    rw [hlive, List.take_append_of_le_length hle]
    exact h.slice row hrow
  · intro i sv' hsv'
    rw [hlive] at hsv' ⊢
    rcases lt_or_ge i w.live.length with hlt | hge
    · rw [List.getElem?_append_left hlt] at hsv'
      rw [List.take_append_of_le_length hlt]
      exact h.taken i sv' hsv'
    · have hi : i = w.live.length := by
        have hbound := (List.getElem?_eq_some_iff.mp hsv').1
        simp at hbound
        omega
      subst hi
      simp only [List.getElem?_concat_length, Option.some.injEq] at hsv'
      obtain rfl := hsv'
      rw [List.take_of_length_le (by simp)]
      exact hcounted

/-! ## A start -/

theorem loadOrder_ids (mpd : Mpd D) (e : Engine D) (row : Order D) :
    (e.loadOrder mpd row).ids = e.ids := by
  refine Prod.ext (Engine.loadOrder_orderIdStart mpd e row) ?_
  change (e.loadOrder mpd row).statics.dealsIdStart = e.statics.dealsIdStart
  unfold Engine.loadOrder
  cases e.dictMarket.find row.market with
  | none => rfl
  | some m => exact orderPut_dealsIdStart mpd e.statics m _

/-- The counters of a slice. -/
def sliceIds : Option (SliceRow D) → ℕ × ℕ
  | none => (0, 0)
  | some row => (row.slice.endOrderId, row.slice.endDealsId)

theorem sliceEngine_ids {mpd : Mpd D} {dictAsset : Dict String AssetType}
    {confs : List (MarketConf D)} {last : Option (SliceRow D)} {e : Engine D}
    (h : sliceEngine mpd dictAsset confs last = some e) :
    e.ids = sliceIds last := by
  have hinit : ∀ {e : Engine D}, Engine.init mpd dictAsset confs = some e → e.ids = (0, 0) := by
    intro e he
    obtain ⟨d, -, rfl⟩ := Option.map_eq_some_iff.mp he
    rfl
  have hrows : ∀ (rows : List (ℕ × Order D)) (e : Engine D),
      (rows.foldl (fun e row => e.loadOrder mpd row.2) e).ids = e.ids := by
    intro rows
    induction rows with
    | nil => exact fun _ => rfl
    | cons row rows ih => exact fun e => (ih _).trans (loadOrder_ids mpd e row.2)
  unfold sliceEngine at h
  cases last with
  | none => exact hinit h
  | some row =>
    dsimp only at h
    split_ifs at h with htime
    · obtain ⟨e₀, -, rfl⟩ := Option.map_eq_some_iff.mp h
      rfl
    · rw [Engine.restore_eq] at h
      obtain ⟨e₀, -, rfl⟩ := Option.map_eq_some_iff.mp h
      exact hrows (row.slice.orders.above 0)
        (e₀.setIds row.slice.endOrderId row.slice.endDealsId)

theorem Numbered.sliceEngine (h : w.Numbered c names) {e : Engine D}
    (he : sliceEngine c.mpd c.dictAsset c.confs w.last = some e) :
    e.ids = Service.total (w.live.take (sliceEnd w.last)) := by
  rw [sliceEngine_ids he]
  cases hlast : w.last with
  | none => rfl
  | some row => exact h.slice row hlast

/-- A replayed entry is the next request. -/
theorem Numbered.replayed (h : w.Numbered c names) {row : ℕ × ℚ × Json} {table : String}
    (hst : w.db.Stored table row) :
    ∃ sv ∈ w.live, sv.log.row = row ∧ w.live[row.1 - 1]? = some sv := by
  obtain ⟨sv, hsv, rfl⟩ := h.stored table row hst
  exact ⟨sv, hsv, rfl, (h.getElem hsv).2⟩

/-- The replay takes the ids the requests took. -/
theorem Numbered.rows (h : w.Numbered c names) {env : ℕ → Engine.Surroundings} {now : ℚ}
    {e₀ e₁ : Engine D} {rows : List (ℕ × ℚ × Json)} (hrep : w.Repeats c env now)
    (he₀ : ViabtcExchange.sliceEngine c.mpd c.dictAsset c.confs w.last = some e₀)
    (hconf : e₀.Configured c.dictAsset names)
    (happ : Applied (Engine.load c.mpd env) (e₀, sliceEnd w.last)
      (e₁, sliceEnd w.last + rows.length) rows)
    (hst : ∀ row ∈ rows, ∃ table, w.Visited c now table ∧ w.db.Stored table row) :
    e₁.ids = Service.total (w.live.take (sliceEnd w.last + rows.length)) := by
  induction rows using List.reverseRecOn generalizing e₁ with
  | nil =>
    have hfold : some e₀ = some e₁ := happ.fold
    rw [← Option.some.inj hfold]
    exact h.sliceEngine he₀
  | append_singleton before row ih =>
    have hids : (before ++ [row]).map Prod.fst =
        List.range' (sliceEnd w.last + 1) (before ++ [row]).length := happ.ids
    have hfold : (before ++ [row]).foldlM (Engine.load c.mpd env) e₀ = some e₁ := happ.fold
    rw [List.map_append, List.length_append, List.length_singleton, List.range'_1_concat] at hids
    obtain ⟨hbefore, hrow⟩ := List.append_inj hids (by simp)
    have hrow : row.1 = sliceEnd w.last + 1 + before.length := by simpa using hrow
    rw [List.foldlM_append] at hfold
    obtain ⟨e, he, hfold⟩ := Option.bind_eq_some_iff.mp hfold
    rw [List.foldlM_cons] at hfold
    obtain ⟨e', hload, hfold⟩ := Option.bind_eq_some_iff.mp hfold
    obtain rfl : e' = e₁ := Option.some.inj hfold
    have happ' : Applied (Engine.load c.mpd env) (e₀, sliceEnd w.last)
        (e, sliceEnd w.last + before.length) before := ⟨hbefore, he, rfl⟩
    have hst' : ∀ row ∈ before, ∃ table, w.Visited c now table ∧ w.db.Stored table row :=
      fun row hrow => hst row (List.mem_append_left _ hrow)
    have hids' := ih happ' hst'
    obtain ⟨table, -, hstored⟩ := hst row (by simp)
    obtain ⟨sv, hsv, rfl, hget⟩ := h.replayed hstored
    obtain ⟨hnamed, hentry⟩ := h.named sv hsv
    have hid : sv.log.id = sliceEnd w.last + before.length + 1 := by
      have hid : sv.log.id = sliceEnd w.last + 1 + before.length := hrow
      omega
    have hdeals := hrep e₀ e e' before sv he₀ happ' hst' hsv hid hload
    have hload' : e.load c.mpd env (sv.log.id, sv.log.createTime,
        operDetail sv.command.method (sv.command.logged sv.params)) = some e' := by
      have hdetail : sv.log.detail = operDetail sv.command.method
        (sv.command.logged sv.params) := hentry
      rw [← hdetail]
      exact hload
    have horders := load_orderIdStart (hconf.rows he) hnamed hload'
    have hat : w.live[sliceEnd w.last + before.length]? = some sv := by
      have hget : w.live[sv.log.id - 1]? = some sv := hget
      rwa [hid, Nat.add_sub_cancel] at hget
    rw [List.length_append, List.length_singleton, ← Nat.add_assoc, Service.total_take_succ hat,
      ← hids']
    exact Prod.ext horders hdeals

theorem Numbered.start {env : ℕ → Engine.Surroundings} {now done : ℚ} {e e₀ : Engine D} {id : ℕ}
    (h : w.Numbered c (· ∈ e₀.dictMarket))
    (hinit : Engine.init c.mpd c.dictAsset c.confs = some e₀) (hcomp : w.Complete c now)
    (hrep : w.Repeats c env now)
    (hload : initFromDb c.mpd env c.localtime c.mktime c.dictAsset c.confs w.db w.last ⌊now⌋ =
      some (e, id)) :
    ({ w with
      server := ⟨e, initOperlog id⟩, crashed := false, clock := done,
      served := w.served.map (Service.loseAbove id) } : World D).Numbered c
        (· ∈ e₀.dictMarket) := by
  set w' : World D := { w with
      server := ⟨e, initOperlog id⟩, crashed := false, clock := done,
      served := w.served.map (Service.loseAbove id) } with hw'
  obtain ⟨e₁, he₁, hrec⟩ := initFromDb_recovered hload
  obtain ⟨rows, happ, hst⟩ := hrec.rows
  have hid : id = sliceEnd w.last + rows.length := happ.last
  have hids : rows.map Prod.fst = List.range' (sliceEnd w.last + 1) rows.length := happ.ids
  have hconf := Engine.configured_sliceEngine hinit he₁
  have hle : id ≤ w.live.length := by
    rcases List.eq_nil_or_concat' rows with rfl | ⟨before, row, rfl⟩
    · exact (hid.trans (Nat.add_zero _)).le.trans (h.sliced.trans h.length.ge)
    · obtain ⟨table, -, hstored⟩ := hst row (by simp)
      obtain ⟨sv, hsv, rfl, -⟩ := h.replayed hstored
      have hlast := congrArg List.getLast? hids
      simp only [List.map_append, List.map_singleton, List.getLast?_concat, List.length_append,
        List.length_singleton, List.range'_1_concat, Option.some.injEq] at hlast hid
      have hsvid : sv.log.id = sliceEnd w.last + 1 + before.length := hlast
      have hbound := (List.getElem?_eq_some_iff.mp (h.getElem hsv).2).1
      have hpos := (h.getElem hsv).1
      omega
  have hlive : w'.live = w.live.take id := by
    unfold live
    rw [hw', Service.filter_loseAbove]
    exact Service.filter_ids h.ids
  have hmem : ∀ sv ∈ w.live, sv.log.id ≤ id → sv ∈ w.live.take id := by
    intro sv hsv hsvid
    obtain ⟨hpos, hget⟩ := h.getElem hsv
    refine List.mem_iff_getElem?.mpr ⟨sv.log.id - 1, ?_⟩
    rw [List.getElem?_take_of_lt (by omega), hget]
  have hcounted : e.ids = Service.total (w.live.take id) := by
    rw [hid]
    exact h.rows hrep he₁ hconf (by rw [← hid]; exact happ) hst
  refine ⟨hconf.rows happ.fold, ?_, ⟨id, System.queued_boot id w.db⟩, ?_, ?_, ?_,
    hcounted.trans (by rw [hlive]), ?_, ?_, ?_⟩
  · intro sv hsv
    rw [hlive] at hsv
    exact h.named sv (List.mem_of_mem_take hsv)
  · simp [System.logs, system, hw', initOperlog, Job.all, Job.create, Thread.running]
  · intro table row hstored
    obtain ⟨sv, hsv, heq⟩ := h.stored table row hstored
    refine ⟨sv, ?_, heq⟩
    rw [hlive]
    refine hmem sv hsv ?_
    have hsvid : sv.log.id = row.1 := congrArg Prod.fst heq
    rw [hsvid]
    by_cases hbehind : sliceEnd w.last < row.1
    · obtain ⟨table', hvisit, hstored'⟩ := hcomp table row hstored hbehind
      exact hrec.above table' row hvisit hstored'
    · exact (not_lt.mp hbehind).trans hrec.le
  · rw [hlive, List.map_take, h.ids, List.take_range'_of_length_ge (hle.trans h.length.le)]
    rfl
  · exact hrec.le
  · intro row hrow
    have hend : row.endOperId ≤ id := by
      have hle := hrec.le
      rw [show w.last = some row from hrow] at hle
      exact hle
    rw [hlive, List.take_take, min_eq_left hend]
    exact h.slice row hrow
  · intro i sv hsv
    rw [hlive] at hsv ⊢
    have hi : i < id := by
      have hbound := (List.getElem?_eq_some_iff.mp hsv).1
      rw [List.length_take] at hbound
      omega
    rw [List.getElem?_take_of_lt hi] at hsv
    rw [List.take_take, min_eq_left (Nat.succ_le_of_lt hi)]
    exact h.taken i sv hsv

theorem numbered_step {act : Act D} {e₀ : Engine D}
    (hinit : Engine.init c.mpd c.dictAsset c.confs = some e₀)
    (h : w.Numbered c (· ∈ e₀.dictMarket)) (hok : w.Restores c act) (hstep : Step c w act w') :
    w'.Numbered c (· ∈ e₀.dictMarket) := by
  cases hstep with
  | refused hup hclock hrecv herr =>
    rcases Server.onRecvPkg_cases hrecv with ⟨-, rfl⟩ | ⟨hok', -⟩
    · exact h.later h.configured rfl _
    · simp [herr] at hok'
  | accepted hup hclock hrecv herr =>
    rcases Server.onRecvPkg_cases hrecv with ⟨hbad, -⟩ | ⟨-, op, hserved⟩
    · simp [herr] at hbad
    · exact h.accept hup hserved
  | @expire now s hup hclock hhandle =>
    cases hhandle
    have hconf : ({ w.server.engine with
        dictUpdate := expireUpdates w.server.engine.dictUpdate now } : Engine D).Configured
          c.dictAsset (· ∈ e₀.dictMarket) := ⟨h.configured.assets, h.configured.markets⟩
    exact h.later hconf rfl now
  | @io operlog db crashed hio hid =>
    obtain ⟨start, hqueued⟩ := h.queued
    have hlogs := hqueued.logs_step hio hid
    refine ⟨h.configured, h.named, ⟨start, hqueued.step c.localtime hio⟩, ?_, ?_, ?_, h.counted, ?_,
      h.slice, h.taken⟩
    · intro log hlog
      exact h.logs log (hlogs ▸ hlog)
    · intro table row hstored
      rcases System.stored_step hio hstored with hst | ⟨log, hlog, rfl⟩
      · exact h.stored table row hst
      · obtain ⟨sv, hsv, rfl⟩ := h.logs log hlog
        exact ⟨sv, hsv, rfl⟩
    · exact h.ids.trans (congrArg (List.range' 1) hid.symm)
    · exact h.sliced.trans hid.ge
  | @slice entries now slice hup hclock hiter hdump =>
    refine ⟨h.configured, h.named, h.queued, h.logs, h.stored, h.ids, h.counted, le_rfl, ?_,
      h.taken⟩
    intro row hrow
    obtain rfl := Option.some.inj hrow
    obtain ⟨orders, -, rfl⟩ := Option.map_eq_some_iff.mp hdump
    change w.server.engine.ids = Service.total (w.live.take w.server.operlog.operlogIdStart)
    rw [List.take_of_length_le h.length.le]
    exact h.counted
  | start hdown hclock henv hload => exact h.start hinit hok.1 hok.2 hload

theorem Reached.numbered (h : Reached c (Restores c) w) : ∃ names, w.Numbered c names := by
  have hinit : ∃ e₀, Engine.init c.mpd c.dictAsset c.confs = some e₀ := by
    induction h with
    | boot clock hinit => exact ⟨_, hinit⟩
    | step _ _ _ ih => exact ih
  obtain ⟨e₀, hinit⟩ := hinit
  refine ⟨(· ∈ e₀.dictMarket), ?_⟩
  induction h with
  | @boot e clock hinit' =>
    have hslice : ViabtcExchange.sliceEngine c.mpd c.dictAsset c.confs none = some e := hinit'
    exact numbered_boot clock (Engine.configured_sliceEngine hinit hslice) (sliceEngine_ids hslice)
  | step _ hok hstep ih => exact numbered_step hinit ih hok hstep

end World

section Examples

end Examples

end ViabtcExchange
