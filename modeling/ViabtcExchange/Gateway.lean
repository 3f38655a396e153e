import ViabtcExchange.Sessions
import ViabtcExchange.States

/-!
# Gateways

accesshttp and accessws pass requests on to a backend. What they remember of a request is its
session with the id this had (`StateInfo`), under the sequence number that the backend sends back.
The reply, or an error when it takes too long, goes to the session if it has this id still.

`Gateway.Waiting` says what the table holds of requests, and `Gateway.Routed` that a reply finds the
request it is for, which takes a bound on how many requests go out while a reply may come
(`Gateway.Within`).
-/

namespace ViabtcExchange

inductive Backend
  | matchengine
  | marketprice
  | readhistory
deriving DecidableEq, Repr

/-- `struct state_info` of accesshttp, `struct state_data` of accessws, which alone has a
`cache_key`. The places of the request among all, and among those sent to a backend, are for the
theorems only. -/
structure StateInfo where
  ses : Ses
  sesId : ℕ
  requestId : ℤ
  cacheKey : Option String
  no : ℕ
  issue : ℕ
deriving DecidableEq

/-- A request that has been sent to a backend, and whose reply may come, with its places. -/
structure Call where
  backend : Backend
  command : ℕ
  sequence : ℕ
  no : ℕ
  issue : ℕ
deriving DecidableEq

/-- What has been written to a session, with the id it had: the reply to a call, or an answer of the
gateway's own. -/
structure Written (C : Type) where
  ses : Ses
  sesId : ℕ
  no : ℕ
  content : Call ⊕ C

/-- A gateway. For the theorems only are recorded the ids of all connections, the connections that
requests came from, the requests sent to a backend and all that was written. -/
structure Gateway (I C : Type) where
  svr : NwSvr I
  state : NwState StateInfo
  calls : List Call
  opened : List ℕ
  arrived : List (Ses × ℕ)
  issues : List ℕ
  written : List (Written C)

namespace Gateway

variable {I C : Type}

def create : Gateway I C := ⟨NwSvr.create, NwState.create, [], [], [], [], []⟩

variable (g : Gateway I C)

/-- `nw_svr_add_clt`. -/
def addClt (ses : Ses) (privdata : I) : Gateway I C :=
  { g with svr := g.svr.addClt ses privdata, opened := g.opened ++ [g.svr.nextId] }

def closeClt (ses : Ses) : Gateway I C := { g with svr := g.svr.closeClt ses }

/-- Other data for a connection. -/
def setPrivdata (ses : Ses) (privdata : I) : Gateway I C :=
  { g with svr := g.svr.setPrivdata ses fun _ => privdata }

/-- A request comes from a session. -/
def arrive (ses : Ses) : Gateway I C := { g with arrived := g.arrived ++ [(ses, g.svr.id ses)] }

/-- `nw_ses_send`: a session whose send fails is closed. -/
def write (fails : Bool) (ses : Ses) (no : ℕ) (content : Call ⊕ C) : Gateway I C :=
  if fails then g.closeClt ses
  else { g with written := g.written ++ [⟨ses, g.svr.id ses, no, content⟩] }

/-- `nw_state_add` and `rpc_clt_send`. -/
def issue (ses : Ses) (no : ℕ) (requestId : ℤ) (cacheKey : Option String) (backend : Backend)
    (command : ℕ) : Option (Gateway I C) :=
  (g.state.add ⟨ses, g.svr.id ses, requestId, cacheKey, no, g.issues.length⟩).map fun added =>
    { g with
      state := added.2
      calls := g.calls ++ [⟨backend, command, added.1, no, g.issues.length⟩]
      issues := g.issues ++ [no] }

/-- The session of an entry gets something, if it is the same still, and the entry goes. -/
def settle (fails : Bool) (content : StateInfo → Call ⊕ C) (sequence : ℕ) : Gateway I C :=
  match g.state.get sequence with
  | none => g
  | some info =>
    let g' := if g.svr.id info.ses = info.sesId then g.write fails info.ses info.no (content info) else g
    { g' with state := g'.state.del sequence }

/-- `on_state_timeout`, with the error it sends. -/
def timeout (fails : Bool) (error : StateInfo → C) (sequence : ℕ) : Gateway I C :=
  g.settle fails (fun info => .inr (error info)) sequence

/-- `on_backend_recv_pkg`. -/
def recvPkg (fails : Bool) (call : Call) : Gateway I C :=
  { g with calls := g.calls.erase call }.settle fails (fun _ => .inl call) call.sequence

/-- A reply that will not come. -/
def lose (call : Call) : Gateway I C := { g with calls := g.calls.erase call }

/-- The request has an entry or a call. -/
def Outstanding (issue : ℕ) : Prop :=
  (∃ sequence info, g.state.get sequence = some info ∧ info.issue = issue) ∨
    ∃ call ∈ g.calls, call.issue = issue

/-- With the next one, fewer than `bound` requests have been issued after any that is
outstanding. -/
def Within (bound : ℕ) : Prop :=
  ∀ issue, g.Outstanding issue → g.issues.length - issue < bound

/-! ## What waits -/

/-- An entry is of a request that has no answer yet, with the connection it came from. -/
structure Waiting (g : Gateway I C) : Prop where
  ids : g.opened.Nodup
  given : ∀ id ∈ g.opened, id < g.svr.nextId
  entries : ∀ sequence info, g.state.get sequence = some info →
    g.arrived[info.no]? = some (info.ses, info.sesId) ∧ info.sesId ≠ 0 ∧
      info.no ∉ g.written.map Written.no
  distinct : ∀ sequence sequence' info info', g.state.get sequence = some info →
    g.state.get sequence' = some info' → info.no = info'.no → sequence = sequence'
  written : ∀ a ∈ g.written, g.arrived[a.no]? = some (a.ses, a.sesId) ∧ a.sesId ≠ 0
  once : (g.written.map Written.no).Nodup

variable {g} {ses : Ses} {no : ℕ}

theorem waiting_create : Waiting (create : Gateway I C) := by
  refine ⟨List.nodup_nil, fun _ h => absurd h List.not_mem_nil, fun sequence info h => ?_,
    fun sequence _ info _ h => ?_, fun _ h => absurd h List.not_mem_nil, List.nodup_nil⟩
  all_goals
    have hnone : (NwState.create : NwState StateInfo).get sequence = none :=
      Dict.find_empty sequence
    exact absurd (h.symm.trans hnone) (Option.some_ne_none info)

theorem Waiting.addClt (h : g.Waiting) (ses : Ses) (privdata : I) :
    (g.addClt ses privdata).Waiting := by
  have hnext : (g.svr.addClt ses privdata).nextId = g.svr.nextId + 1 := by
    show (if g.svr.nextId + 1 = 0 then 1 else g.svr.nextId + 1) = _
    rw [if_neg (Nat.succ_ne_zero _)]
  refine ⟨?_, fun id hid => ?_, h.entries, h.distinct, h.written, h.once⟩
  · refine List.nodup_append'.mpr ⟨h.ids, List.nodup_singleton _, fun id hid hnew => ?_⟩
    rw [List.mem_singleton.mp hnew] at hid
    exact absurd (h.given _ hid) (lt_irrefl _)
  · show id < (g.svr.addClt ses privdata).nextId
    rw [hnext]
    rcases List.mem_append.mp hid with hid | hid
    · exact (h.given id hid).trans (Nat.lt_succ_self _)
    · rw [List.mem_singleton.mp hid]
      exact Nat.lt_succ_self _

theorem Waiting.closeClt (h : g.Waiting) (ses : Ses) : (g.closeClt ses).Waiting :=
  ⟨h.ids, h.given, h.entries, h.distinct, h.written, h.once⟩

theorem Waiting.setPrivdata (h : g.Waiting) (ses : Ses) (privdata : I) :
    (g.setPrivdata ses privdata).Waiting :=
  ⟨h.ids, h.given, h.entries, h.distinct, h.written, h.once⟩

theorem getElem?_arrive {p : Ses × ℕ} (h : g.arrived[no]? = some p) (ses : Ses) :
    (g.arrive ses).arrived[no]? = some p := by
  obtain ⟨hlt, -⟩ := List.getElem?_eq_some_iff.mp h
  show (g.arrived ++ [_])[no]? = some p
  rw [List.getElem?_append_left hlt, h]

theorem Waiting.arrive (h : g.Waiting) (ses : Ses) : (g.arrive ses).Waiting := by
  refine ⟨h.ids, h.given, fun sequence info hinfo => ?_, h.distinct, fun a ha => ?_, h.once⟩
  · obtain ⟨harrived, hrest⟩ := h.entries sequence info hinfo
    exact ⟨getElem?_arrive harrived ses, hrest⟩
  · obtain ⟨harrived, hrest⟩ := h.written a ha
    exact ⟨getElem?_arrive harrived ses, hrest⟩

/-- A request that nothing waits for any more, nor has been answered, may be answered. -/
theorem Waiting.write (h : g.Waiting) {fails : Bool} {content : Call ⊕ C}
    (harrived : g.arrived[no]? = some (ses, g.svr.id ses)) (hopen : g.svr.id ses ≠ 0)
    (hnew : no ∉ g.written.map Written.no)
    (hfree : ∀ sequence info, g.state.get sequence = some info → info.no ≠ no) :
    (g.write fails ses no content).Waiting := by
  cases fails with
  | true => exact h.closeClt ses
  | false =>
    refine ⟨h.ids, h.given, fun sequence info hinfo => ?_, h.distinct, fun a ha => ?_, ?_⟩
    · obtain ⟨hfrom, hid, hwritten⟩ := h.entries sequence info hinfo
      refine ⟨hfrom, hid, fun hmem => ?_⟩
      rw [show (g.write false ses no content).written = g.written ++ [_] from rfl, List.map_append,
        List.mem_append] at hmem
      rcases hmem with hmem | hmem
      · exact hwritten hmem
      · exact hfree sequence info hinfo (List.mem_singleton.mp hmem)
    · rcases List.mem_append.mp ha with ha | ha
      · exact h.written a ha
      · rw [List.mem_singleton.mp ha]
        exact ⟨harrived, hopen⟩
    · show ((g.written ++ [_]).map Written.no).Nodup
      rw [List.map_append]
      refine List.nodup_append'.mpr ⟨h.once, List.nodup_singleton _, fun n hn hnew' => ?_⟩
      rw [List.mem_singleton.mp hnew'] at hn
      exact hnew hn

theorem Waiting.issue (h : g.Waiting) {g' : Gateway I C} {requestId : ℤ} {cacheKey : Option String}
    {backend : Backend} {command : ℕ}
    (hissue : g.issue ses no requestId cacheKey backend command = some g')
    (harrived : g.arrived[no]? = some (ses, g.svr.id ses)) (hopen : g.svr.id ses ≠ 0)
    (hnew : no ∉ g.written.map Written.no)
    (hfree : ∀ sequence info, g.state.get sequence = some info → info.no ≠ no) : g'.Waiting := by
  obtain ⟨⟨id, state⟩, hadd, rfl⟩ := Option.map_eq_some_iff.mp hissue
  obtain ⟨-, hget⟩ := NwState.add_spec hadd
  refine ⟨h.ids, h.given, fun sequence info hinfo => ?_,
    fun sequence sequence' info info' hi hi' hno => ?_, h.written, h.once⟩
  · rw [hget] at hinfo
    split_ifs at hinfo
    · obtain rfl := Option.some.inj hinfo
      exact ⟨harrived, hopen, hnew⟩
    · exact h.entries sequence info hinfo
  · rw [hget] at hi hi'
    split_ifs at hi hi' with hs hs' hs'
    · exact hs.trans hs'.symm
    · obtain rfl := Option.some.inj hi
      exact absurd hno.symm (hfree sequence' info' hi')
    · obtain rfl := Option.some.inj hi'
      exact absurd hno (hfree sequence info hi)
    · exact h.distinct sequence sequence' info info' hi hi' hno

/-- Without an entry. -/
def forget (g : Gateway I C) (sequence : ℕ) : Gateway I C :=
  { g with state := g.state.del sequence }

theorem get_forget {sequence sequence' : ℕ} {info : StateInfo}
    (h : (g.forget sequence).state.get sequence' = some info) :
    sequence' ≠ sequence ∧ g.state.get sequence' = some info := by
  rw [forget, NwState.get_del] at h
  split_ifs at h with hs
  exact ⟨hs, h⟩

theorem Waiting.forget (h : g.Waiting) (sequence : ℕ) : (g.forget sequence).Waiting :=
  ⟨h.ids, h.given, fun s info hinfo => h.entries s info (get_forget hinfo).2,
    fun s s' info info' hi hi' => h.distinct s s' info info' (get_forget hi).2 (get_forget hi').2,
    h.written, h.once⟩

/-- The entry may as well go first. -/
theorem settle_eq (g : Gateway I C) (fails : Bool) (content : StateInfo → Call ⊕ C) (sequence : ℕ) :
    g.settle fails content sequence =
      match g.state.get sequence with
      | none => g
      | some info =>
        if g.svr.id info.ses = info.sesId then
          (g.forget sequence).write fails info.ses info.no (content info)
        else g.forget sequence := by
  unfold settle
  cases g.state.get sequence with
  | none => rfl
  | some info =>
    dsimp only
    split_ifs
    · cases fails <;> rfl
    · rfl

theorem Waiting.settle (h : g.Waiting) (fails : Bool) (content : StateInfo → Call ⊕ C)
    (sequence : ℕ) : (g.settle fails content sequence).Waiting := by
  rw [settle_eq]
  cases hget : g.state.get sequence with
  | none => exact h
  | some info =>
    obtain ⟨harrived, hid, hnew⟩ := h.entries sequence info hget
    dsimp only
    split_ifs with hsame
    · refine (h.forget sequence).write ?_ ?_ hnew fun s info' hinfo' hno => ?_
      · show g.arrived[info.no]? = some (info.ses, g.svr.id info.ses)
        rw [hsame]
        exact harrived
      · show g.svr.id info.ses ≠ 0
        rw [hsame]
        exact hid
      · obtain ⟨hne, hinfo'⟩ := get_forget hinfo'
        exact hne (h.distinct s sequence info' info hinfo' hget hno)
    · exact h.forget sequence

/-- A request that has just come is not answered and does not wait. -/
theorem Waiting.new_request (h : g.Waiting) (ses : Ses) :
    (g.arrive ses).arrived[g.arrived.length]? = some (ses, g.svr.id ses) ∧
      g.arrived.length ∉ g.written.map Written.no ∧
      ∀ sequence info, g.state.get sequence = some info → info.no ≠ g.arrived.length := by
  have hlt : ∀ {n : ℕ} {p : Ses × ℕ}, g.arrived[n]? = some p → n < g.arrived.length := fun hn =>
    (List.getElem?_eq_some_iff.mp hn).1
  refine ⟨List.getElem?_concat_length, fun hmem => ?_, fun sequence info hinfo => ?_⟩
  · obtain ⟨a, ha, hno⟩ := List.mem_map.mp hmem
    have hless := hlt (h.written a ha).1
    omega
  · exact (hlt (h.entries sequence info hinfo).1).ne

theorem Waiting.lose (h : g.Waiting) (call : Call) : (g.lose call).Waiting :=
  ⟨h.ids, h.given, h.entries, h.distinct, h.written, h.once⟩

theorem Waiting.recvPkg (h : g.Waiting) (fails : Bool) (call : Call) :
    (g.recvPkg fails call).Waiting :=
  (h.lose call).settle fails _ _

/-- With nothing in the table the next number is free. -/
theorem issue_of_empty (hentries : g.state.entries = ∅)
    (hstart : g.state.idStart = NwState.startOf g.issues.length) (requestId : ℤ)
    (cacheKey : Option String) (backend : Backend) (command : ℕ) :
    g.issue ses no requestId cacheKey backend command =
      some { g with
        state := ⟨NwState.sequenceOf g.issues.length,
          Finmap.insert (NwState.sequenceOf g.issues.length)
            ⟨ses, g.svr.id ses, requestId, cacheKey, no, g.issues.length⟩ ∅⟩
        calls := g.calls ++
          [⟨backend, command, NwState.sequenceOf g.issues.length, no, g.issues.length⟩]
        issues := g.issues ++ [no] } := by
  have hnone : ∀ id, g.state.get id = none := fun id => by
    rw [NwState.get, hentries, Dict.find_empty]
  have hadd := NwState.add_of_free hstart (fun id hid => absurd (hnone id) hid) (hnone _)
    ⟨ses, g.svr.id ses, requestId, cacheKey, no, g.issues.length⟩
  rw [hentries] at hadd
  exact congrArg _ hadd

/-! ## Who still waits -/

theorem id_addClt (svr : NwSvr I) (ses : Ses) (privdata : I) (ses' : Ses) :
    (svr.addClt ses privdata).id ses' = if ses' = ses then svr.nextId else svr.id ses' := by
  unfold NwSvr.id
  rw [NwSvr.find_addClt]
  split_ifs <;> rfl

theorem id_closeClt (svr : NwSvr I) (ses ses' : Ses) :
    (svr.closeClt ses).id ses' = if ses' = ses then 0 else svr.id ses' := by
  unfold NwSvr.id
  rw [NwSvr.find_closeClt]
  split_ifs <;> rfl

/-- An entry is of this request. -/
def Waits (g : Gateway I C) (no : ℕ) : Prop :=
  ∃ sequence info, g.state.get sequence = some info ∧ info.no = no

/-- Each request of an open connection has been answered or waits, but for one that is being handled
(`but`). -/
structure Answered (g : Gateway I C) (but : Option ℕ) : Prop where
  conns : ∀ ses, g.svr.id ses ≠ 0 → g.svr.id ses ∈ g.opened
  origins : ∀ p ∈ g.arrived, p.2 ∈ g.opened
  answered : ∀ no ses, g.arrived[no]? = some (ses, g.svr.id ses) → g.svr.id ses ≠ 0 →
    some no ≠ but → no ∈ g.written.map Written.no ∨ g.Waits no

variable {but : Option ℕ}

theorem Answered.addClt (h : g.Answered but) (hwaiting : g.Waiting) (ses : Ses) (privdata : I) :
    (g.addClt ses privdata).Answered but := by
  have hid := id_addClt g.svr ses privdata
  refine ⟨fun ses' hopen => ?_, fun p hp => List.mem_append_left _ (h.origins p hp),
    fun no ses' hno hopen hbut => ?_⟩
  · show (g.svr.addClt ses privdata).id ses' ∈ _
    rw [hid]
    split_ifs with hses
    · exact List.mem_append_right _ (List.mem_singleton_self _)
    · refine List.mem_append_left _ (h.conns ses' ?_)
      have hopen' : (g.svr.addClt ses privdata).id ses' ≠ 0 := hopen
      rwa [hid, if_neg hses] at hopen'
  · have hno' : g.arrived[no]? = some (ses', (g.svr.addClt ses privdata).id ses') := hno
    have hopen' : (g.svr.addClt ses privdata).id ses' ≠ 0 := hopen
    rw [hid] at hno' hopen'
    split_ifs at hno' hopen' with hses
    · have hmem := h.origins _ (List.mem_of_getElem? hno')
      exact absurd (hwaiting.given _ hmem) (lt_irrefl _)
    · exact h.answered no ses' hno' hopen' hbut

theorem Answered.closeClt (h : g.Answered but) (ses : Ses) : (g.closeClt ses).Answered but := by
  have hid := id_closeClt g.svr ses
  have hopen : ∀ ses', (g.svr.closeClt ses).id ses' ≠ 0 → ses' ≠ ses := by
    intro ses' hne hses
    rw [hid, if_pos hses] at hne
    exact hne rfl
  refine ⟨fun ses' hne => ?_, h.origins, fun no ses' hno hne hbut => ?_⟩
  · have hses := hopen ses' hne
    have hne' : (g.svr.closeClt ses).id ses' ≠ 0 := hne
    show (g.svr.closeClt ses).id ses' ∈ g.opened
    rw [hid, if_neg hses] at hne' ⊢
    exact h.conns ses' hne'
  · have hses := hopen ses' hne
    have hne' : (g.svr.closeClt ses).id ses' ≠ 0 := hne
    have hno' : g.arrived[no]? = some (ses', (g.svr.closeClt ses).id ses') := hno
    rw [hid, if_neg hses] at hne' hno'
    exact h.answered no ses' hno' hne' hbut

theorem Answered.lose (h : g.Answered but) (call : Call) : (g.lose call).Answered but :=
  ⟨h.conns, h.origins, h.answered⟩

theorem Answered.arrive (h : g.Answered none) (hopen : g.svr.id ses ≠ 0) :
    (g.arrive ses).Answered (some g.arrived.length) := by
  refine ⟨h.conns, fun p hp => ?_, fun no ses' hno hne hbut => ?_⟩
  · rcases List.mem_append.mp hp with hp | hp
    · exact h.origins p hp
    · rw [List.mem_singleton.mp hp]
      exact h.conns ses hopen
  · have hno' : (g.arrived ++ [(ses, g.svr.id ses)])[no]? = some (ses', g.svr.id ses') := hno
    have hlt : no < (g.arrived ++ [(ses, g.svr.id ses)]).length :=
      (List.getElem?_eq_some_iff.mp hno').1
    rw [List.length_append, List.length_singleton] at hlt
    have hne' : no ≠ g.arrived.length := fun heq => hbut (congrArg some heq)
    rw [List.getElem?_append_left (by omega)] at hno'
    exact h.answered no ses' hno' hne (Option.some_ne_none no)

/-- The request is answered, or its connection is closed. -/
theorem Answered.write (h : g.Answered (some no)) {fails : Bool} {content : Call ⊕ C}
    (harrived : ∀ ses', g.arrived[no]? = some (ses', g.svr.id ses') → g.svr.id ses' ≠ 0 →
      ses' = ses) :
    (g.write fails ses no content).Answered none := by
  cases fails with
  | true =>
    have hclose := h.closeClt ses
    refine ⟨hclose.conns, hclose.origins, fun n ses' hn hne _ => ?_⟩
    by_cases hno : n = no
    · subst hno
      have hne' : (g.svr.closeClt ses).id ses' ≠ 0 := hne
      have hn' : g.arrived[n]? = some (ses', (g.svr.closeClt ses).id ses') := hn
      rw [id_closeClt] at hne' hn'
      split_ifs at hne' hn' with hses
      · exact absurd rfl hne'
      · exact absurd (harrived ses' hn' hne') hses
    · exact hclose.answered n ses' hn hne fun heq => hno (Option.some.inj heq)
  | false =>
    refine ⟨h.conns, h.origins, fun n ses' hn hne _ => ?_⟩
    show n ∈ (g.written ++ [_]).map Written.no ∨ _
    rw [List.map_append, List.mem_append]
    by_cases hno : n = no
    · exact Or.inl (Or.inr (List.mem_singleton.mpr hno))
    · rcases h.answered n ses' hn hne fun heq => hno (Option.some.inj heq) with hmem | hwaits
      · exact Or.inl (Or.inl hmem)
      · exact Or.inr hwaits

theorem Answered.issue (h : g.Answered (some no)) {g' : Gateway I C} {requestId : ℤ}
    {cacheKey : Option String} {backend : Backend} {command : ℕ}
    (hissue : g.issue ses no requestId cacheKey backend command = some g') : g'.Answered none := by
  obtain ⟨⟨id, state⟩, hadd, rfl⟩ := Option.map_eq_some_iff.mp hissue
  obtain ⟨hfree, hget⟩ := NwState.add_spec hadd
  refine ⟨h.conns, h.origins, fun n ses' hn hne _ => ?_⟩
  by_cases hno : n = no
  · subst hno
    exact Or.inr ⟨id, _, by rw [hget, if_pos rfl], rfl⟩
  · rcases h.answered n ses' hn hne fun heq => hno (Option.some.inj heq) with
      hmem | ⟨sequence, info, hinfo, hwaits⟩
    · exact Or.inl hmem
    · refine Or.inr ⟨sequence, info, ?_, hwaits⟩
      have hne : sequence ≠ id := by
        rintro rfl
        rw [hfree] at hinfo
        cases hinfo
      rw [hget, if_neg hne]
      exact hinfo

theorem Answered.settle (h : g.Answered none) (hwaiting : g.Waiting) (fails : Bool)
    (content : StateInfo → Call ⊕ C) (sequence : ℕ) :
    (g.settle fails content sequence).Answered none := by
  rw [settle_eq]
  cases hget : g.state.get sequence with
  | none => exact h
  | some info =>
    obtain ⟨harrived, hid, -⟩ := hwaiting.entries sequence info hget
    have hforget : (g.forget sequence).Answered (some info.no) := by
      refine ⟨h.conns, h.origins, fun n ses' hn hne hbut => ?_⟩
      rcases h.answered n ses' hn hne (Option.some_ne_none n) with hmem | ⟨s, info', hinfo', hwaits⟩
      · exact Or.inl hmem
      · refine Or.inr ⟨s, info', ?_, hwaits⟩
        have hs : s ≠ sequence := by
          rintro rfl
          rw [hget] at hinfo'
          obtain rfl := Option.some.inj hinfo'
          exact hbut (congrArg some hwaits.symm)
        show (g.state.del sequence).get s = some info'
        rw [NwState.get_del, if_neg hs]
        exact hinfo'
    have hses : ∀ ses', g.arrived[info.no]? = some (ses', g.svr.id ses') → g.svr.id ses' ≠ 0 →
        ses' = info.ses ∧ g.svr.id info.ses = info.sesId := by
      intro ses' hno _
      rw [harrived] at hno
      obtain ⟨hses, hsame⟩ := Prod.mk.inj (Option.some.inj hno)
      exact ⟨hses.symm, by rw [hses, hsame]⟩
    dsimp only
    split_ifs with hsame
    · exact hforget.write fun ses' hno hne => (hses ses' hno hne).1
    · refine ⟨hforget.conns, hforget.origins, fun n ses' hn hne _ => ?_⟩
      by_cases hno : n = info.no
      · rw [hno] at hn
        exact absurd (hses ses' hn hne).2 hsame
      · exact hforget.answered n ses' hn hne fun heq => hno (Option.some.inj heq)

/-! ## What a reply is for -/

/-- The sequence numbers are those of the places, no two that are outstanding are the same, and
every reply was passed on for its own request. -/
structure Routed (g : Gateway I C) : Prop where
  start : g.state.idStart = NwState.startOf g.issues.length
  entries : ∀ sequence info, g.state.get sequence = some info →
    sequence = NwState.sequenceOf info.issue ∧ g.issues[info.issue]? = some info.no
  calls : ∀ call ∈ g.calls,
    call.sequence = NwState.sequenceOf call.issue ∧ g.issues[call.issue]? = some call.no
  window : ∀ issue, g.Outstanding issue → g.issues.length - issue ≤ sequences
  replies : ∀ a ∈ g.written, ∀ call, a.content = .inl call → call.no = a.no

theorem not_outstanding_create {issue : ℕ} : ¬(create : Gateway I C).Outstanding issue := by
  rintro (⟨sequence, info, hinfo, -⟩ | ⟨call, hcall, -⟩)
  · have hnone : (NwState.create : NwState StateInfo).get sequence = none :=
      Dict.find_empty sequence
    exact absurd (hinfo.symm.trans hnone) (Option.some_ne_none info)
  · exact absurd hcall List.not_mem_nil

theorem routed_create : Routed (create : Gateway I C) :=
  ⟨rfl, fun sequence info h => absurd (Or.inl ⟨sequence, info, h, rfl⟩) not_outstanding_create,
    fun _ h => absurd h List.not_mem_nil, fun _ h => absurd h not_outstanding_create,
    fun _ h => absurd h List.not_mem_nil⟩

/-- Less is outstanding. -/
theorem Routed.of_le (h : g.Routed) {g' : Gateway I C} (hstart : g'.state.idStart = g.state.idStart)
    (hissues : g'.issues = g.issues)
    (hentries : ∀ sequence info, g'.state.get sequence = some info →
      g.state.get sequence = some info)
    (hcalls : ∀ call ∈ g'.calls, call ∈ g.calls)
    (hwritten : ∀ a ∈ g'.written, ∀ call, a.content = .inl call → call.no = a.no) : g'.Routed := by
  refine ⟨?_, fun sequence info hinfo => ?_, fun call hcall => ?_, fun issue hout => ?_, hwritten⟩
  · rw [hstart, hissues]
    exact h.start
  · rw [hissues]
    exact h.entries sequence info (hentries sequence info hinfo)
  · rw [hissues]
    exact h.calls call (hcalls call hcall)
  · rw [hissues]
    refine h.window issue ?_
    rcases hout with ⟨sequence, info, hinfo, hissue⟩ | ⟨call, hcall, hissue⟩
    · exact Or.inl ⟨sequence, info, hentries sequence info hinfo, hissue⟩
    · exact Or.inr ⟨call, hcalls call hcall, hissue⟩

theorem Routed.addClt (h : g.Routed) (ses : Ses) (privdata : I) : (g.addClt ses privdata).Routed :=
  ⟨h.start, h.entries, h.calls, h.window, h.replies⟩

theorem Routed.setPrivdata (h : g.Routed) (ses : Ses) (privdata : I) :
    (g.setPrivdata ses privdata).Routed :=
  ⟨h.start, h.entries, h.calls, h.window, h.replies⟩

theorem Routed.closeClt (h : g.Routed) (ses : Ses) : (g.closeClt ses).Routed :=
  ⟨h.start, h.entries, h.calls, h.window, h.replies⟩

theorem Routed.arrive (h : g.Routed) (ses : Ses) : (g.arrive ses).Routed :=
  ⟨h.start, h.entries, h.calls, h.window, h.replies⟩

theorem Routed.lose (h : g.Routed) (call : Call) : (g.lose call).Routed :=
  h.of_le rfl rfl (fun _ _ hinfo => hinfo) (fun _ hmem => List.mem_of_mem_erase hmem) h.replies

theorem Routed.write (h : g.Routed) {fails : Bool} {content : Call ⊕ C}
    (hcontent : ∀ call, content = .inl call → call.no = no) :
    (g.write fails ses no content).Routed := by
  cases fails with
  | true => exact h.closeClt ses
  | false =>
    refine h.of_le rfl rfl (fun _ _ hinfo => hinfo) (fun _ hmem => hmem) fun a ha => ?_
    rcases List.mem_append.mp ha with ha | ha
    · exact h.replies a ha
    · rw [List.mem_singleton.mp ha]
      exact hcontent

theorem Routed.issue (h : g.Routed) (ses : Ses) (no : ℕ) (requestId : ℤ) (cacheKey : Option String)
    (backend : Backend) (command : ℕ) (hwithin : g.Within sequences) :
    ∃ g', g.issue ses no requestId cacheKey backend command = some g' ∧ g'.Routed := by
  have hkeys : ∀ id, g.state.get id ≠ none → 0 < id ∧ id ≤ sequences := by
    intro id hid
    obtain ⟨info, hinfo⟩ := Option.ne_none_iff_exists'.mp hid
    rw [(h.entries id info hinfo).1]
    exact ⟨NwState.sequenceOf_pos _, NwState.sequenceOf_le _⟩
  have hfree : g.state.get (NwState.sequenceOf g.issues.length) = none := by
    by_contra hid
    obtain ⟨info, hinfo⟩ := Option.ne_none_iff_exists'.mp hid
    obtain ⟨hsequence, hno⟩ := h.entries _ info hinfo
    obtain ⟨hlt, -⟩ := List.getElem?_eq_some_iff.mp hno
    have hclose := hwithin info.issue (Or.inl ⟨_, info, hinfo, rfl⟩)
    have heq := NwState.eq_of_sequenceOf_eq hsequence.symm hlt.le hclose
    omega
  have hadd := NwState.add_of_free h.start hkeys hfree
    ⟨ses, g.svr.id ses, requestId, cacheKey, no, g.issues.length⟩
  have hget := (NwState.add_spec hadd).2
  have hold : ∀ {i n : ℕ}, g.issues[i]? = some n → (g.issues ++ [no])[i]? = some n := by
    intro i n hi
    obtain ⟨hlt, -⟩ := List.getElem?_eq_some_iff.mp hi
    rw [List.getElem?_append_left hlt, hi]
  have hlast : (g.issues ++ [no])[g.issues.length]? = some no := List.getElem?_concat_length
  refine ⟨_, congrArg _ hadd, ?_, fun sequence info hinfo => ?_, fun call hcall => ?_,
    fun issue hout => ?_, h.replies⟩
  · show NwState.sequenceOf g.issues.length = NwState.startOf (g.issues ++ [no]).length
    rw [List.length_append]
    rfl
  · rw [hget] at hinfo
    split_ifs at hinfo with hs
    · obtain rfl := Option.some.inj hinfo
      exact ⟨hs, hlast⟩
    · obtain ⟨hsequence, hno⟩ := h.entries sequence info hinfo
      exact ⟨hsequence, hold hno⟩
  · rcases List.mem_append.mp hcall with hcall | hcall
    · obtain ⟨hsequence, hno⟩ := h.calls call hcall
      exact ⟨hsequence, hold hno⟩
    · rw [List.mem_singleton.mp hcall]
      exact ⟨rfl, hlast⟩
  · have hcases : g.Outstanding issue ∨ issue = g.issues.length := by
      rcases hout with ⟨sequence, info, hinfo, hissue⟩ | ⟨call, hcall, hissue⟩
      · rw [hget] at hinfo
        split_ifs at hinfo
        · obtain rfl := Option.some.inj hinfo
          exact Or.inr hissue.symm
        · exact Or.inl (Or.inl ⟨sequence, info, hinfo, hissue⟩)
      · rcases List.mem_append.mp hcall with hcall | hcall
        · exact Or.inl (Or.inr ⟨call, hcall, hissue⟩)
        · rw [List.mem_singleton.mp hcall] at hissue
          exact Or.inr hissue.symm
    show (g.issues ++ [no]).length - issue ≤ sequences
    rw [List.length_append, List.length_singleton]
    unfold sequences at hwithin ⊢
    rcases hcases with hout | rfl
    · have hclose := hwithin issue hout
      omega
    · omega

theorem Routed.settle (h : g.Routed) (fails : Bool) {content : StateInfo → Call ⊕ C} {sequence : ℕ}
    (hcontent : ∀ info, g.state.get sequence = some info →
      ∀ call, content info = .inl call → call.no = info.no) :
    (g.settle fails content sequence).Routed := by
  have hforget : (g.forget sequence).Routed :=
    h.of_le rfl rfl (fun _ _ hinfo => (get_forget hinfo).2) (fun _ hmem => hmem) h.replies
  rw [settle_eq]
  cases hget : g.state.get sequence with
  | none => exact h
  | some info =>
    dsimp only
    split_ifs
    · exact hforget.write (hcontent info hget)
    · exact hforget

theorem Routed.timeout (h : g.Routed) (fails : Bool) (error : StateInfo → C) (sequence : ℕ) :
    (g.timeout fails error sequence).Routed :=
  h.settle fails fun _ _ call hcall => by cases hcall

/-- **A reply finds the request it is for.** -/
theorem Routed.no_eq (h : g.Routed) {call : Call} (hcall : call ∈ g.calls) {info : StateInfo}
    (hinfo : g.state.get call.sequence = some info) : info.no = call.no := by
  obtain ⟨hsequence, hno⟩ := h.entries _ info hinfo
  obtain ⟨hsequence', hno'⟩ := h.calls call hcall
  obtain ⟨hlt, -⟩ := List.getElem?_eq_some_iff.mp hno
  obtain ⟨hlt', -⟩ := List.getElem?_eq_some_iff.mp hno'
  have hwindow := h.window info.issue (Or.inl ⟨_, info, hinfo, rfl⟩)
  have hwindow' := h.window call.issue (Or.inr ⟨call, hcall, rfl⟩)
  have hsame : NwState.sequenceOf info.issue = NwState.sequenceOf call.issue :=
    hsequence.symm.trans hsequence'
  have hissue : info.issue = call.issue := by
    rcases Nat.le_total info.issue call.issue with hle | hle
    · exact NwState.eq_of_sequenceOf_eq hsame hle (by omega)
    · exact (NwState.eq_of_sequenceOf_eq hsame.symm hle (by omega)).symm
  rw [hissue, hno'] at hno
  exact (Option.some.inj hno).symm

theorem Routed.recvPkg (h : g.Routed) (fails : Bool) {call : Call} (hcall : call ∈ g.calls) :
    (g.recvPkg fails call).Routed := by
  refine (h.lose call).settle fails fun info hinfo call' hcall' => ?_
  obtain rfl := Sum.inl.inj hcall'
  exact (h.no_eq hcall hinfo).symm

/-- Each connection has an id of its own. What is written for a request goes to the connection that
the request came from, is once, and if it is the reply to a call it is the one to this request. A
reply to a request that does not wait any more is dropped. -/
structure RepliesRouted (g : Gateway I C) : Prop where
  ids : g.opened.Nodup
  once : (g.written.map Written.no).Nodup
  requester : ∀ a ∈ g.written, g.arrived[a.no]? = some (a.ses, a.sesId) ∧ a.sesId ≠ 0
  reply : ∀ a ∈ g.written, ∀ call, a.content = .inl call → call.no = a.no
  late : ∀ call ∈ g.calls, ¬g.Waits call.no → ∀ fails, (g.recvPkg fails call).written = g.written

theorem RepliesRouted.of_routed (hwaiting : g.Waiting) (hrouted : g.Routed) : g.RepliesRouted := by
  refine ⟨hwaiting.ids, hwaiting.once, hwaiting.written, hrouted.replies,
    fun call hcall hwaits fails => ?_⟩
  have hnone : (g.lose call).state.get call.sequence = none := by
    by_contra hsome
    obtain ⟨info, hinfo⟩ := Option.ne_none_iff_exists'.mp hsome
    exact hwaits ⟨call.sequence, info, hinfo, hrouted.no_eq hcall hinfo⟩
  show ((g.lose call).settle fails _ call.sequence).written = g.written
  rw [settle_eq, hnone]
  rfl

end Gateway

end ViabtcExchange
