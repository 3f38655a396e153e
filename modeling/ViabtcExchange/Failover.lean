import ViabtcExchange.RpcClt

/-!
# The addresses of a client in turn (`ut_rpc_clt.c`, `nw_clt.c`)

A client that has several addresses moves to the next when its connection fails or is closed, and
waits before it begins again with the first. What it does is written into a log: the connections it
tries, those that end, and the addresses it reads.

**Theorem (`failover`).** The addresses come in turn, each failure moves to the next one, and there
is a wait before each new round, in every run in which

* `curr_index` happens to be 1 in the memory of a new client (it is not set),
* no connection fails at once: then `on_close` is called twice, by `on_connect` and by
  `nw_clt_start`, and an address is left out or its connection is closed before it has failed,
* and a connection that is given up (`nw_clt_close`) is not the last of a round, as what `on_close`
  returns is not looked at there.

With one address nothing moves, and only the last of these matters.
-/

namespace ViabtcExchange

/-- What a client does: it tries to connect to the address at `peer`, after a wait or at once; an
attempt or a connection ends; `addr_arr` is read. -/
inductive Deed
  | connect (peer : ℕ) (delayed : Bool)
  | ended (peer : ℕ)
  | read (index : ℕ)
deriving DecidableEq, Repr

namespace Deed

def tried : Deed → Option (ℕ × Bool)
  | connect peer delayed => some (peer, delayed)
  | _ => none

def endedPeer : Deed → Option ℕ
  | ended peer => some peer
  | _ => none

/-- The connections that have been tried. -/
def tries (log : List Deed) : List (ℕ × Bool) := log.filterMap tried

/-- The addresses of the attempts that have ended. -/
def ends (log : List Deed) : List ℕ := log.filterMap endedPeer

@[simp] theorem tries_append (log log' : List Deed) :
    tries (log ++ log') = tries log ++ tries log' :=
  List.filterMap_append ..

@[simp] theorem ends_append (log log' : List Deed) : ends (log ++ log') = ends log ++ ends log' :=
  List.filterMap_append ..

end Deed

/-- The connections that fail at once. -/
def Attempt.failsAtOnce : Attempt → Bool
  | .failed _ _ => true
  | .noSocket | .now | .pending => false

namespace RpcClt

/-! ## What is done -/

/-- What `on_close` reads. -/
def reads (c : RpcClt) : List Deed :=
  if c.addrCount = 1 then [] else [.read (pick c.addrCount c.currIndex).2]

/-- What is done in `onClose`. -/
def onCloseDeeds (start : RpcClt → List Deed) (c : RpcClt) : List Deed :=
  c.reads ++ if c.rpcOnClose.1 then start c.nwCltClose else []

/-- What is done in `nwCltStart`. -/
def startDeeds : Attempt → Bool → RpcClt → List Deed
  | .noSocket, _, _ => []
  | .now, delayed, c => [.connect c.peer delayed]
  | .pending, delayed, c => [.connect c.peer delayed]
  | .failed inner again, delayed, c =>
    .connect c.peer delayed :: .ended c.peer ::
      (onCloseDeeds (startDeeds inner false) c.refused ++
        onCloseDeeds (startDeeds again false) (c.refused.onClose (nwCltStart inner)))

/-- What is done in `onTimeout`. -/
def timeoutDeeds (c : RpcClt) (a : Attempt) : List Deed :=
  match c.timer with
  | none => []
  | some .reconnect => startDeeds a true { c with timer := none }
  | some .connect =>
    if c.onConnectCalled then []
    else .ended c.peer :: (c.reads ++ startDeeds a false (nwCltClose { c with timer := none }))

/-- What is done in `step`. -/
def stepDeeds (c : RpcClt) : Event → List Deed
  | .connect result a =>
    if c.sock = .connecting ∧ result = false then
      .ended c.peer :: onCloseDeeds (startDeeds a false) { c with onConnectCalled := true }
    else []
  | .timer a => c.timeoutDeeds a
  | .lost a => if c.sock = .closed then [] else .ended c.peer :: onCloseDeeds (startDeeds a false) c
  | .heartbeat late a =>
    if c.connected && late then .ended c.peer :: (c.reads ++ startDeeds a false c.nwCltClose) else []

/-- What is done in a run. -/
def runDeeds (c : RpcClt) : List Event → List Deed
  | [] => []
  | e :: events => c.stepDeeds e ++ (c.step e).runDeeds events

/-- The addresses come in turn, and there is a wait before each round but the first. -/
structure Failover (n : ℕ) (c : RpcClt) (log : List Deed) : Prop where
  reads : ∀ i, .read i ∈ log → i < n
  peer : c.peer < n
  moved : c.peer = (Deed.ends log).length % n
  ended : ∀ k p, (Deed.ends log)[k]? = some p → p = k % n
  rounds : ∀ k, k + n ≤ (Deed.ends log).length → ∀ p < n, p ∈ ((Deed.ends log).drop k).take n
  delays : ∀ k t, (Deed.tries log)[k]? = some t → t = (k % n, decide (0 < k ∧ k % n = 0))

/-! ## Runs in which they do -/

/-- A connection that is closed is not followed at once by one that fails at once. -/
def TurnsClose (c : RpcClt) (a : Attempt) : Prop :=
  (rotate c.addrCount c.currIndex).1 = true → a.failsAtOnce = false

/-- A connection that is given up is not the last of a round either. -/
def TurnsGivenUp (c : RpcClt) (a : Attempt) : Prop :=
  (rotate c.addrCount c.currIndex).1 = true ∧ a.failsAtOnce = false

def TurnsEvent (c : RpcClt) : Event → Prop
  | .connect result a => c.sock = .connecting → result = false → c.TurnsClose a
  | .timer a =>
    (c.timer = some .reconnect → c.addrCount = 1 ∨ a.failsAtOnce = false) ∧
      (c.timer = some .connect → c.onConnectCalled = false → c.TurnsGivenUp a)
  | .lost a => c.sock ≠ .closed → c.TurnsClose a
  | .heartbeat late a => c.connected = true → late = true → c.TurnsGivenUp a

def TurnsRun (c : RpcClt) : List Event → Prop
  | [] => True
  | e :: events => c.TurnsEvent e ∧ (c.step e).TurnsRun events

/-! ## The invariant -/

/-- `e` attempts have ended and `t` have been made. -/
structure Rounds (n e t : ℕ) (c : RpcClt) (log : List Deed) : Prop where
  count : c.addrCount = n
  index : n ≠ 1 → c.currIndex = c.peer + 1
  peer : c.peer = e % n
  reads : ∀ i, .read i ∈ log → i < n
  ends : Deed.ends log = (List.range e).map (· % n)
  tries : Deed.tries log = (List.range t).map fun k => (k % n, decide (0 < k ∧ k % n = 0))
  busy : c.sock ≠ .closed ∨ c.connected = true ∨ c.timer = some .connect → t = e + 1
  waiting : c.timer = some .reconnect →
    c.sock = .closed ∧ c.connected = false ∧ t = e ∧ 0 < e ∧ e % n = 0

theorem succ_mod {n : ℕ} (hn : 0 < n) (e : ℕ) :
    (e + 1) % n = if e % n + 1 = n then 0 else e % n + 1 := by
  have hlt := Nat.mod_lt e hn
  rw [← Nat.mod_add_mod]
  split_ifs with h
  · rw [h, Nat.mod_self]
  · exact Nat.mod_eq_of_lt (by omega)

theorem eq_of_getElem?_map_range {α : Type} {f : ℕ → α} {m k : ℕ} {x : α}
    (h : ((List.range m).map f)[k]? = some x) : x = f k := by
  obtain ⟨hk, hx⟩ := List.getElem?_eq_some_iff.mp h
  rw [List.getElem_map, List.getElem_range] at hx
  exact hx.symm

/-- A round has all addresses, wherever it begins. -/
theorem mem_round {n m k p : ℕ} (hk : k + n ≤ m) (hp : p < n) :
    p ∈ (((List.range m).map (· % n)).drop k).take n := by
  have hlt : k % n < n := Nat.mod_lt k (by omega)
  have hd : (p + n - k % n) % n < n := Nat.mod_lt _ (by omega)
  apply List.mem_of_getElem? (i := (p + n - k % n) % n)
  rw [List.getElem?_take, if_pos hd, List.getElem?_drop, List.getElem?_map,
    List.getElem?_range (by omega)]
  have hsum : (k + (p + n - k % n) % n) % n = p := by
    rw [Nat.add_mod_mod, ← Nat.mod_add_mod, show k % n + (p + n - k % n) = p + n by omega,
      Nat.add_mod_right, Nat.mod_eq_of_lt hp]
  exact congrArg some hsum

variable {n e t : ℕ} {c : RpcClt} {log : List Deed} {a : Attempt}

theorem Rounds.inTurn (hn : 0 < n) (h : Rounds n e t c log) : Failover n c log where
  reads := h.reads
  peer := h.peer ▸ Nat.mod_lt e hn
  moved := by
    rw [h.ends, List.length_map, List.length_range]
    exact h.peer
  ended k p hp := by
    rw [h.ends] at hp
    exact eq_of_getElem?_map_range (f := (· % n)) hp
  rounds k hk p hp := by
    rw [h.ends, List.length_map, List.length_range] at hk
    rw [h.ends]
    exact mem_round hk hp
  delays k t ht := by
    rw [h.tries] at ht
    exact eq_of_getElem?_map_range ht

/-! ## One end and one start -/

/-- The next address after the end of an attempt, and whether not to wait. -/
theorem Rounds.rotate_iff (hn : 0 < n) (h : Rounds n e t c log) :
    (rotate c.addrCount c.currIndex).1 = true ↔ (e + 1) % n ≠ 0 := by
  rw [h.count, succ_mod hn]
  unfold rotate pick
  by_cases hone : n = 1
  · subst hone
    simp [Nat.mod_one]
  · rw [if_neg hone, h.index hone, h.peer]
    split_ifs <;> simp

/-- With one address nothing moves. -/
theorem peer_nwCltClose_one (hone : c.addrCount = 1) : c.nwCltClose.peer = c.peer := by
  unfold nwCltClose rpcOnClose
  rw [if_pos hone]
  rfl

/-- Where nothing is open or set, `busy` says nothing. -/
theorem not_busy {p : Prop} (hsock : c.sock = .closed) (hconnected : c.connected = false)
    (htimer : c.timer ≠ some .connect) :
    c.sock ≠ .closed ∨ c.connected = true ∨ c.timer = some .connect → p := by
  intro h
  rcases h with hopen | hconnected' | htimer'
  · exact absurd hsock hopen
  · exact absurd (hconnected.symm.trans hconnected') (by decide)
  · exact absurd htimer' htimer

/-- An attempt ends: what `on_close` and `clt_close` make of it. -/
theorem Rounds.close (hn : 0 < n) (hsize : n < 2 ^ 32) (h : Rounds n e (e + 1) c log) :
    Rounds n (e + 1) (e + 1) c.nwCltClose (log ++ .ended c.peer :: c.reads) := by
  have hlt : e % n < n := Nat.mod_lt e hn
  have hends : Deed.ends (.ended c.peer :: c.reads) = [c.peer] := by
    unfold RpcClt.reads
    split_ifs <;> rfl
  have htries : Deed.tries (.ended c.peer :: c.reads) = [] := by
    unfold RpcClt.reads
    split_ifs <;> rfl
  have hpick : n ≠ 1 → (pick c.addrCount c.currIndex).2 = (e + 1) % n := by
    intro hone
    rw [succ_mod hn, h.count, h.index hone, h.peer]
    unfold pick
    split_ifs <;> rfl
  have hclosed : n ≠ 1 → c.nwCltClose.peer = (e + 1) % n ∧
      c.nwCltClose.currIndex = (e + 1) % n + 1 := by
    intro hone
    have hlt' : (e + 1) % n < n := Nat.mod_lt _ hn
    unfold nwCltClose rpcOnClose cltClose
    rw [if_neg (fun hcount => hone (h.count.symm.trans hcount))]
    dsimp only
    rw [hpick hone]
    exact ⟨rfl, Nat.mod_eq_of_lt (by omega)⟩
  refine ⟨(addrCount_nwCltClose c).trans h.count, fun hone => ?_, ?_, fun i hi => ?_, ?_, ?_, ?_,
    ?_⟩
  · rw [(hclosed hone).1, (hclosed hone).2]
  · by_cases hone : n = 1
    · subst hone
      rw [peer_nwCltClose_one h.count]
      exact h.peer.trans ((Nat.mod_one e).trans (Nat.mod_one (e + 1)).symm)
    · exact (hclosed hone).1
  · rcases List.mem_append.mp hi with hi | hi
    · exact h.reads i hi
    · unfold RpcClt.reads at hi
      split_ifs at hi with hcount
      · simp at hi
      · simp only [List.mem_cons, reduceCtorEq, false_or, Deed.read.injEq, List.not_mem_nil,
          or_false] at hi
        rw [hi, hpick fun hone => hcount (h.count.trans hone)]
        exact Nat.mod_lt _ hn
  · rw [Deed.ends_append, h.ends, hends, List.range_succ, List.map_append, h.peer]
    rfl
  · rw [Deed.tries_append, h.tries, htries, List.append_nil]
  · exact not_busy rfl rfl fun htimer => nomatch htimer
  · intro htimer
    cases htimer

/-- The timer is set at the end of a round. -/
theorem Rounds.later (h : Rounds n e e c log) (hidle : c.Idle) (hpos : 0 < e) (hmod : e % n = 0) :
    Rounds n e e c.reconnectLater log where
  count := h.count
  index := h.index
  peer := h.peer
  reads := h.reads
  ends := h.ends
  tries := h.tries
  busy := not_busy hidle.1 hidle.2.1 fun htimer => nomatch htimer
  waiting _ := ⟨hidle.1, hidle.2.1, rfl, hpos, hmod⟩

/-- A new attempt is made. -/
theorem Rounds.start (h : Rounds n e e c log) (c' : RpcClt) (hcount : c'.addrCount = c.addrCount)
    (hindex : c'.currIndex = c.currIndex) (hpeer : c'.peer = c.peer)
    (htimer : c'.timer ≠ some .reconnect) {delayed : Bool}
    (hdelayed : delayed = decide (0 < e ∧ e % n = 0)) :
    Rounds n e (e + 1) c' (log ++ [.connect c.peer delayed]) where
  count := hcount.trans h.count
  index hone := by rw [hindex, hpeer, h.index hone]
  peer := hpeer.trans h.peer
  reads i hi := by
    rcases List.mem_append.mp hi with hi | hi
    · exact h.reads i hi
    · simp at hi
  ends := by
    rw [Deed.ends_append, h.ends]
    exact List.append_nil _
  tries := by
    rw [Deed.tries_append, h.tries, List.range_succ, List.map_append, h.peer, hdelayed]
    rfl
  busy _ := rfl
  waiting hreconnect := absurd hreconnect htimer

/-- With one address a connection that fails at once is tried again later. -/
theorem nwCltStart_failed_one (inner again : Attempt) (hone : c.addrCount = 1) :
    nwCltStart (.failed inner again) c =
      (c.refused.nwCltClose.reconnectLater.nwCltClose).reconnectLater := by
  have hrotate : ∀ i, (rotate 1 i).1 = false := fun i => rfl
  have hwait : ∀ (d : RpcClt) (start : RpcClt → RpcClt), d.addrCount = 1 →
      d.onClose start = d.nwCltClose.reconnectLater := by
    intro d start hd
    rw [onClose_eq, hd, hrotate, if_neg (by decide)]
  rw [nwCltStart_failed, hwait c.refused _ hone,
    hwait c.refused.nwCltClose.reconnectLater _ ((addrCount_nwCltClose c.refused).trans hone)]
  exact started_eq fun h => by
    have hcalled : c.refused.nwCltClose.reconnectLater.nwCltClose.reconnectLater.onConnectCalled =
        true := by
      show c.refused.nwCltClose.reconnectLater.nwCltClose.onConnectCalled = true
      rw [onConnectCalled_nwCltClose]
      exact onConnectCalled_nwCltClose c.refused
    exact absurd (hcalled.symm.trans h) (by decide)

theorem startDeeds_failed_one (inner again : Attempt) (delayed : Bool) (hone : c.addrCount = 1) :
    startDeeds (.failed inner again) delayed c = [.connect c.peer delayed, .ended c.peer] := by
  have hquiet : ∀ (d : RpcClt) (start : RpcClt → List Deed), d.addrCount = 1 →
      onCloseDeeds start d = [] := by
    intro d start hd
    unfold onCloseDeeds RpcClt.reads
    rw [if_pos hd, fst_rpcOnClose, hd]
    rfl
  rw [startDeeds, hquiet c.refused _ hone, hquiet _ _ ?_]
  · rfl
  · rw [addrCount_onClose (addrCount_nwCltStart inner)]
    exact hone

/-- `nw_clt_start` where nothing is open. -/
theorem Rounds.nwCltStart (hn : 0 < n) (hsize : n < 2 ^ 32) (h : Rounds n e e c log)
    (hidle : c.Idle) (ha : n = 1 ∨ a.failsAtOnce = false) {delayed : Bool}
    (hdelayed : delayed = decide (0 < e ∧ e % n = 0)) :
    ∃ e' t', Rounds n e' t' (RpcClt.nwCltStart a c) (log ++ startDeeds a delayed c) := by
  cases a with
  | noSocket =>
    rw [startDeeds, List.append_nil]
    exact ⟨e, e, h⟩
  | now =>
    refine ⟨e, e + 1, h.start (RpcClt.nwCltStart .now c) rfl rfl rfl (fun htimer => ?_) hdelayed⟩
    exact absurd (hidle.2.2.symm.trans htimer) (by decide)
  | pending =>
    exact ⟨e, e + 1,
      h.start (RpcClt.nwCltStart .pending c) rfl rfl rfl (fun htimer => nomatch htimer) hdelayed⟩
  | failed inner again =>
    obtain rfl : n = 1 := ha.resolve_right fun hfails => nomatch hfails
    have hopen : Rounds 1 e (e + 1) c.refused (log ++ [.connect c.peer delayed]) :=
      h.start c.refused rfl rfl rfl
        (fun htimer => absurd (hidle.2.2.symm.trans htimer) (by decide)) hdelayed
    have hclose := hopen.close hn hsize
    have hreads : c.refused.reads = [] := if_pos h.count
    rw [hreads, List.append_assoc] at hclose
    have hcount : c.refused.nwCltClose.reconnectLater.addrCount = 1 := hclose.count
    rw [startDeeds_failed_one inner again delayed h.count,
      nwCltStart_failed_one inner again h.count]
    have hagain : Rounds 1 (e + 1) (e + 1) c.refused.nwCltClose.reconnectLater.nwCltClose _ :=
      ⟨(addrCount_nwCltClose _).trans hcount, fun hone => absurd rfl hone,
        (peer_nwCltClose_one hcount).trans hclose.peer, hclose.reads, hclose.ends, hclose.tries,
        not_busy rfl rfl fun htimer => (nomatch htimer), fun htimer => (nomatch htimer)⟩
    exact ⟨e + 1, e + 1, hagain.later (idle_nwCltClose _) (Nat.succ_pos e) (Nat.mod_one _)⟩

/-- `on_close` where an attempt ends. -/
theorem Rounds.onClose (hn : 0 < n) (hsize : n < 2 ^ 32) (h : Rounds n e (e + 1) c log)
    (ha : c.TurnsClose a) :
    ∃ e' t', Rounds n e' t' (c.onClose (RpcClt.nwCltStart a))
      (log ++ .ended c.peer :: onCloseDeeds (startDeeds a false) c) := by
  have hclose := h.close hn hsize
  rw [onClose_eq]
  unfold onCloseDeeds
  rw [fst_rpcOnClose]
  by_cases hnowait : (rotate c.addrCount c.currIndex).1 = true
  · rw [if_pos hnowait, if_pos hnowait]
    have hmod : (e + 1) % n ≠ 0 := (h.rotate_iff hn).mp hnowait
    obtain ⟨e', t', hstart⟩ := hclose.nwCltStart hn hsize (idle_nwCltClose c) (Or.inr (ha hnowait))
      (show false = decide (0 < e + 1 ∧ (e + 1) % n = 0) by simp [hmod])
    refine ⟨e', t', ?_⟩
    rw [List.append_assoc] at hstart
    exact hstart
  · rw [if_neg hnowait, if_neg hnowait, List.append_nil]
    have hmod : (e + 1) % n = 0 := by
      by_contra hne
      exact hnowait ((h.rotate_iff hn).mpr hne)
    exact ⟨e + 1, e + 1, hclose.later (idle_nwCltClose c) (Nat.succ_pos e) hmod⟩

/-- A connection that is given up. -/
theorem Rounds.givenUp (hn : 0 < n) (hsize : n < 2 ^ 32) (h : Rounds n e (e + 1) c log)
    (ha : c.TurnsGivenUp a) :
    ∃ e' t', Rounds n e' t' (RpcClt.nwCltStart a c.nwCltClose)
      (log ++ .ended c.peer :: (c.reads ++ startDeeds a false c.nwCltClose)) := by
  have hmod : (e + 1) % n ≠ 0 := (h.rotate_iff hn).mp ha.1
  obtain ⟨e', t', hstart⟩ := (h.close hn hsize).nwCltStart hn hsize (idle_nwCltClose c) (Or.inr ha.2)
    (show false = decide (0 < e + 1 ∧ (e + 1) % n = 0) by simp [hmod])
  refine ⟨e', t', ?_⟩
  rw [List.append_assoc] at hstart
  exact hstart

/-! ## Runs -/

/-- Only the socket and the timer have changed, while a connection is open. -/
theorem Rounds.kept (h : Rounds n e (e + 1) c log) (c' : RpcClt)
    (hcount : c'.addrCount = c.addrCount) (hindex : c'.currIndex = c.currIndex)
    (hpeer : c'.peer = c.peer) (htimer : c'.timer ≠ some .reconnect) :
    Rounds n e (e + 1) c' log where
  count := hcount.trans h.count
  index hone := by rw [hindex, hpeer, h.index hone]
  peer := hpeer.trans h.peer
  reads := h.reads
  ends := h.ends
  tries := h.tries
  busy _ := rfl
  waiting hreconnect := absurd hreconnect htimer

/-- Nothing waits to reconnect while a connection is open. -/
theorem Rounds.not_waiting (h : Rounds n e (e + 1) c log) :
    c.timer ≠ some .reconnect := fun htimer =>
  absurd (h.waiting htimer).2.2.1 (by omega)

theorem Rounds.step_connect (hn : 0 < n) (hsize : n < 2 ^ 32) (h : Rounds n e t c log)
    {result : Bool} (hevent : c.TurnsEvent (.connect result a)) :
    ∃ e' t', Rounds n e' t' (c.step (.connect result a))
      (log ++ c.stepDeeds (.connect result a)) := by
  unfold step stepDeeds
  dsimp only
  by_cases hsock : c.sock = .connecting
  · obtain rfl : t = e + 1 := h.busy (Or.inl (by rw [hsock]; decide))
    rw [if_pos hsock]
    cases result with
    | true =>
      rw [if_pos rfl, if_neg (show ¬(_ ∧ true = false) from fun h => absurd h.2 (by decide)),
        List.append_nil]
      exact ⟨e, e + 1,
        h.kept (c.watchRead.onConnect (RpcClt.nwCltStart a) true) rfl rfl rfl h.not_waiting⟩
    | false =>
      rw [if_neg (by decide), if_pos (show _ ∧ false = false from ⟨hsock, rfl⟩)]
      have hcalled : Rounds n e (e + 1) { c with onConnectCalled := true } log :=
        h.kept _ rfl rfl rfl h.not_waiting
      exact hcalled.onClose hn hsize (hevent hsock rfl)
  · rw [if_neg hsock, if_neg (fun h => hsock h.1), List.append_nil]
    exact ⟨e, t, h⟩

theorem Rounds.step_timer (hn : 0 < n) (hsize : n < 2 ^ 32) (h : Rounds n e t c log)
    (hevent : c.TurnsEvent (.timer a)) :
    ∃ e' t', Rounds n e' t' (c.step (.timer a)) (log ++ c.stepDeeds (.timer a)) := by
  show ∃ e' t', Rounds n e' t' (c.onTimeout a) (log ++ c.timeoutDeeds a)
  unfold onTimeout timeoutDeeds
  cases htimer : c.timer with
  | none =>
    rw [List.append_nil]
    exact ⟨e, t, h⟩
  | some kind =>
    cases kind with
    | reconnect =>
      obtain ⟨hsock, hconnected, rfl, hpos, hmod⟩ := h.waiting htimer
      have hidle : Idle { c with timer := none } := ⟨hsock, hconnected, rfl⟩
      have hbase : Rounds n t t { c with timer := none } log :=
        ⟨h.count, h.index, h.peer, h.reads, h.ends, h.tries,
          fun hbusy => h.busy (by simpa using hbusy.imp_right Or.inl), fun hnone => nomatch hnone⟩
      exact hbase.nwCltStart hn hsize hidle (h.count ▸ hevent.1 htimer)
        (show true = decide (0 < t ∧ t % n = 0) by simp [hpos, hmod])
    | connect =>
      obtain rfl : t = e + 1 := h.busy (Or.inr (Or.inr htimer))
      have hstopped : Rounds n e (e + 1) { c with timer := none } log :=
        h.kept _ rfl rfl rfl fun hnone => nomatch hnone
      dsimp only
      by_cases hcalled : c.onConnectCalled = true
      · rw [if_pos hcalled, if_pos hcalled, List.append_nil]
        exact ⟨e, e + 1, hstopped⟩
      · rw [if_neg hcalled, if_neg hcalled]
        exact hstopped.givenUp hn hsize (hevent.2 htimer (Bool.eq_false_iff.mpr hcalled))

theorem Rounds.step_lost (hn : 0 < n) (hsize : n < 2 ^ 32) (h : Rounds n e t c log)
    (hevent : c.TurnsEvent (.lost a)) :
    ∃ e' t', Rounds n e' t' (c.step (.lost a)) (log ++ c.stepDeeds (.lost a)) := by
  unfold step stepDeeds
  dsimp only
  by_cases hsock : c.sock = .closed
  · rw [if_pos hsock, if_pos hsock, List.append_nil]
    exact ⟨e, t, h⟩
  · obtain rfl : t = e + 1 := h.busy (Or.inl hsock)
    rw [if_neg hsock, if_neg hsock]
    exact h.onClose hn hsize (hevent hsock)

theorem Rounds.step_heartbeat (hn : 0 < n) (hsize : n < 2 ^ 32) (h : Rounds n e t c log)
    {late : Bool} (hevent : c.TurnsEvent (.heartbeat late a)) :
    ∃ e' t', Rounds n e' t' (c.step (.heartbeat late a))
      (log ++ c.stepDeeds (.heartbeat late a)) := by
  unfold step stepDeeds
  dsimp only
  by_cases hlate : (c.connected && late) = true
  · rw [if_pos hlate, if_pos hlate]
    obtain ⟨hconnected, hlate⟩ := (Bool.and_eq_true _ _).mp hlate
    obtain rfl : t = e + 1 := h.busy (Or.inr (Or.inl hconnected))
    exact h.givenUp hn hsize (hevent hconnected hlate)
  · rw [if_neg hlate, if_neg hlate, List.append_nil]
    exact ⟨e, t, h⟩

/-- What one event preserves. -/
theorem Rounds.step (hn : 0 < n) (hsize : n < 2 ^ 32) (h : Rounds n e t c log) {event : Event}
    (hevent : c.TurnsEvent event) :
    ∃ e' t', Rounds n e' t' (c.step event) (log ++ c.stepDeeds event) := by
  cases event with
  | connect result a => exact h.step_connect hn hsize hevent
  | timer a => exact h.step_timer hn hsize hevent
  | lost a => exact h.step_lost hn hsize hevent
  | heartbeat late a => exact h.step_heartbeat hn hsize hevent

/-- What a run preserves. -/
theorem Rounds.run (hn : 0 < n) (hsize : n < 2 ^ 32) (h : Rounds n e t c log) {events : List Event}
    (hrun : c.TurnsRun events) :
    ∃ e' t', Rounds n e' t' (events.foldl RpcClt.step c) (log ++ c.runDeeds events) := by
  induction events generalizing c e t log with
  | nil =>
    rw [runDeeds, List.append_nil]
    exact ⟨e, t, h⟩
  | cons event events ih =>
    obtain ⟨e', t', hstep⟩ := h.step hn hsize hrun.1
    rw [runDeeds, ← List.append_assoc]
    exact ih hstep hrun.2

theorem rounds_create {i : ℕ} (hi : n = 1 ∨ i = 1) : Rounds n 0 0 (create n i) [] where
  count := rfl
  index hone := hi.resolve_left hone
  peer := (Nat.zero_mod n).symm
  reads _ hi := absurd hi List.not_mem_nil
  ends := rfl
  tries := rfl
  busy := not_busy rfl rfl fun htimer => nomatch htimer
  waiting h := nomatch h

/-- **The addresses come in turn** in a client with any number of addresses, after any events. -/
theorem failover (hn : 0 < n) (hsize : n < 2 ^ 32) {i : ℕ} (hi : n = 1 ∨ i = 1)
    (ha : n = 1 ∨ a.failsAtOnce = false) {events : List Event}
    (hrun : (RpcClt.nwCltStart a (create n i)).TurnsRun events) :
    Failover n (events.foldl RpcClt.step (RpcClt.nwCltStart a (create n i)))
      (startDeeds a false (create n i) ++ (RpcClt.nwCltStart a (create n i)).runDeeds events) := by
  obtain ⟨e, t, hstart⟩ := (rounds_create hi).nwCltStart hn hsize (idle_create n i) ha
    (show false = decide (0 < 0 ∧ 0 % n = 0) by simp)
  obtain ⟨e', t', h⟩ := hstart.run hn hsize hrun
  exact h.inTurn hn

/-- Two addresses that fail, and the first one again. -/
theorem failover_two :
    Failover 2 ([.connect false .pending, .connect false .now, .timer .pending].foldl RpcClt.step
        (RpcClt.nwCltStart .pending (create 2 1)))
      (startDeeds .pending false (create 2 1) ++ (RpcClt.nwCltStart .pending (create 2 1)).runDeeds
        [.connect false .pending, .connect false .now, .timer .pending]) :=
  failover (by decide) (by decide) (Or.inr rfl) (Or.inr rfl)
    ⟨fun _ _ _ => rfl, fun _ _ _ => rfl, ⟨fun _ => Or.inr rfl, fun h => (nomatch h)⟩, trivial⟩

/-- Of two addresses the first fails at once: the connection to the second is closed before it has
failed. Or `curr_index` is 7 in a new client, and `addr_arr[7]` is read. Or the connection to the
second is given up, and there is no wait before the first is tried again. -/
theorem address_left_out :
    ¬Failover 2 (RpcClt.nwCltStart (.failed .pending .pending) (create 2 1))
        (startDeeds (.failed .pending .pending) false (create 2 1)) ∧
      ¬Failover 2 ((RpcClt.nwCltStart .pending (create 2 7)).step (.connect false .pending))
        (startDeeds .pending false (create 2 7) ++
          (RpcClt.nwCltStart .pending (create 2 7)).runDeeds [.connect false .pending]) ∧
        ¬Failover 2 ([.connect false .now, .heartbeat true .now].foldl RpcClt.step
            (RpcClt.nwCltStart .pending (create 2 1)))
          (startDeeds .pending false (create 2 1) ++
            (RpcClt.nwCltStart .pending (create 2 1)).runDeeds [.connect false .now, .heartbeat true .now]) :=
  ⟨fun h => absurd h.moved (by decide), fun h => absurd (h.reads 7 (by decide)) (by decide),
    fun h => absurd (h.delays 2 (0, false) (by decide)) (by decide)⟩

end RpcClt

end ViabtcExchange
