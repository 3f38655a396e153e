import Mathlib.Tactic

/-!
# Clients of the backends

`nw_clt.c` and `ut_rpc_clt.c` over a stream or seqpacket socket. A client connects, and where it
fails or is closed, it starts again at once with its next address, or later by its timer. The
kernel's answers to a start are given: a start that fails at once makes up to two more, which have
answers of their own.

Main results: `RpcClt.alive_nwCltStart_iff`, when one start leaves something that goes on, and
`RpcClt.aliveRun_start_iff`, the same of a whole run.
-/

namespace ViabtcExchange

/-- What happens in one call of `nw_clt_start`. A connection that fails at once is reported to
`on_connect`, which may start `inner`, and returned to `nw_clt_start`, which may start `again`. -/
inductive Attempt
  | noSocket
  | now
  | pending
  | failed (inner again : Attempt)
  deriving DecidableEq, Repr

inductive CltSock
  | closed
  | connecting
  | connected
  deriving DecidableEq, Repr

/-- What the timer does when it fires: `on_reconnect_timeout` or `on_connect_timeout`. -/
inductive CltTimer
  | reconnect
  | connect
  deriving DecidableEq, Repr

/-- `curr_index` is not set before it is used first. -/
structure RpcClt where
  addrCount : ℕ
  currIndex : ℕ
  /-- The place of `peer_addr` in `addr_arr`. -/
  peer : ℕ
  sock : CltSock
  connected : Bool
  onConnectCalled : Bool
  timer : Option CltTimer
deriving DecidableEq, Repr

namespace RpcClt

def create (addrCount currIndex : ℕ) : RpcClt :=
  ⟨addrCount, currIndex, 0, .closed, false, false, none⟩

/-- Whether not to wait, and the place of the next address. -/
def pick (addrCount currIndex : ℕ) : Bool × ℕ :=
  if currIndex = addrCount then (false, 0) else (true, currIndex)

/-- `on_close` of `ut_rpc_clt.c`, which returns whether not to wait. -/
def rpcOnClose (c : RpcClt) : Bool × RpcClt :=
  if c.addrCount = 1 then (false, c)
  else
    let next := pick c.addrCount c.currIndex
    (next.1, { c with peer := next.2, currIndex := (next.2 + 1) % 2 ^ 32 })

def cltClose (c : RpcClt) : RpcClt :=
  { c with timer := none, connected := false, sock := .closed }

def reconnectLater (c : RpcClt) : RpcClt := { c with timer := some .reconnect }

def watchConnect (c : RpcClt) : RpcClt := { c with timer := some .connect }

/-- `on_close` and `on_error` of `nw_clt.c`, and the same lines in `on_connect` and
`nw_clt_start`. -/
def onClose (start : RpcClt → RpcClt) (c : RpcClt) : RpcClt :=
  let closed := c.rpcOnClose
  if closed.1 then start closed.2.cltClose else closed.2.cltClose.reconnectLater

def onConnect (start : RpcClt → RpcClt) (c : RpcClt) (result : Bool) : RpcClt :=
  let c := { c with onConnectCalled := true }
  if result then { c with connected := true } else c.onClose start

/-- The socket is made, and nothing has happened to it. -/
def opened (c : RpcClt) : RpcClt :=
  { c with sock := .connecting, connected := false, onConnectCalled := false }

def watchRead (c : RpcClt) : RpcClt := { c with sock := .connected }

/-- The end of `nw_clt_start`. -/
def started (c : RpcClt) : RpcClt :=
  if c.onConnectCalled = false then c.watchConnect else c

def nwCltStart : Attempt → RpcClt → RpcClt
  | .noSocket, c => c
  | .now, c => (c.opened.watchRead.onConnect id true).started
  | .pending, c => c.opened.started
  | .failed inner again, c =>
    ((c.opened.onConnect (nwCltStart inner) false).onClose (nwCltStart again)).started

def nwCltClose (c : RpcClt) : RpcClt := c.rpcOnClose.2.cltClose

/-- What happens to a client, with what happens in the start that it may lead to: the result of a
connection, the timer, the end of a connection or an error of it, and the timer of the
heartbeats. -/
inductive Event
  | connect (result : Bool) (a : Attempt)
  | timer (a : Attempt)
  | lost (a : Attempt)
  | heartbeat (late : Bool) (a : Attempt)
  deriving DecidableEq, Repr

/-- `on_reconnect_timeout` and `on_connect_timeout`. -/
def onTimeout (c : RpcClt) (a : Attempt) : RpcClt :=
  match c.timer with
  | none => c
  | some .reconnect => nwCltStart a { c with timer := none }
  | some .connect =>
    if c.onConnectCalled then { c with timer := none }
    else nwCltStart a (nwCltClose { c with timer := none })

def step (c : RpcClt) : Event → RpcClt
  | .connect result a =>
    if c.sock = .connecting then
      if result then c.watchRead.onConnect (nwCltStart a) true else c.onConnect (nwCltStart a) false
    else c
  | .timer a => c.onTimeout a
  | .lost a => if c.sock = .closed then c else c.onClose (nwCltStart a)
  | .heartbeat late a => if c.connected && late then nwCltStart a c.nwCltClose else c

/-- Connected, or connecting with the timer of a connection, or waiting to reconnect. -/
def Alive (c : RpcClt) : Prop :=
  c.sock = .connected ∧ c.connected = true ∨ c.sock = .connecting ∧ c.timer = some .connect ∨
    c.timer = some .reconnect

instance (c : RpcClt) : Decidable c.Alive := inferInstanceAs (Decidable (_ ∨ _ ∨ _))

end RpcClt

/-! ## Where a start goes on -/

/-- `on_close` of `ut_rpc_clt.c` by the indexes: whether not to wait, and `curr_index` after it. -/
def rotate (n i : ℕ) : Bool × ℕ :=
  if n = 1 then (false, i) else ((RpcClt.pick n i).1, ((RpcClt.pick n i).2 + 1) % 2 ^ 32)

namespace Attempt

/-- `curr_index` after a start, with `n` addresses. -/
def index (n : ℕ) : Attempt → ℕ → ℕ
  | .noSocket, i => i
  | .now, i => i
  | .pending, i => i
  | .failed inner again, i =>
    let first := rotate n i
    let second := rotate n (if first.1 then inner.index n first.2 else first.2)
    if second.1 then again.index n second.2 else second.2

/-- `curr_index` after `inner` may have been started. -/
def between (n : ℕ) (inner : Attempt) (i : ℕ) : ℕ :=
  let first := rotate n i
  if first.1 then inner.index n first.2 else first.2

/-- The last connection of a start that got a socket is in progress. -/
def Hangs (n : ℕ) : Attempt → ℕ → Prop
  | .noSocket, _ => False
  | .now, _ => False
  | .pending, _ => True
  | .failed inner again, i =>
    let first := rotate n i
    let second := rotate n (inner.between n i)
    if second.1 ∧ again ≠ .noSocket then again.Hangs n second.2
    else first.1 ∧ inner.Hangs n first.2

/-- The last start gets its socket, and where it is `inner`'s place to be the last, no connection in
progress is closed after it. -/
def Clean (n : ℕ) : Attempt → ℕ → Prop
  | .noSocket, _ => False
  | .now, _ => True
  | .pending, _ => True
  | .failed inner again, i =>
    let first := rotate n i
    let second := rotate n (inner.between n i)
    if second.1 then again.Clean n second.2 else ¬(first.1 ∧ inner.Hangs n first.2)

end Attempt

namespace RpcClt

/-! ## One step -/

/-- Nothing is open and nothing is waited for. -/
def Idle (c : RpcClt) : Prop := c.sock = .closed ∧ c.connected = false ∧ c.timer = none

/-- How the fields go together at the event loop. -/
structure Fit (c : RpcClt) : Prop where
  connecting : c.sock = .connecting → c.onConnectCalled = false ∧ c.timer = some .connect
  connected : c.sock = .connected → c.connected = true
  reconnect : c.timer = some .reconnect → c.sock = .closed ∧ c.connected = false

section Lemmas

variable (c : RpcClt)

theorem fst_rpcOnClose : c.rpcOnClose.1 = (rotate c.addrCount c.currIndex).1 := by
  unfold rpcOnClose rotate
  split_ifs <;> rfl

@[simp] theorem currIndex_nwCltClose :
    c.nwCltClose.currIndex = (rotate c.addrCount c.currIndex).2 := by
  unfold nwCltClose rpcOnClose rotate
  split_ifs <;> rfl

@[simp] theorem addrCount_nwCltClose : c.nwCltClose.addrCount = c.addrCount := by
  unfold nwCltClose rpcOnClose
  split_ifs <;> rfl

@[simp] theorem onConnectCalled_nwCltClose : c.nwCltClose.onConnectCalled = c.onConnectCalled := by
  unfold nwCltClose rpcOnClose
  split_ifs <;> rfl

theorem idle_nwCltClose : c.nwCltClose.Idle := ⟨rfl, rfl, rfl⟩

theorem onClose_eq (start : RpcClt → RpcClt) :
    c.onClose start =
      if (rotate c.addrCount c.currIndex).1 then start c.nwCltClose
      else c.nwCltClose.reconnectLater := by
  unfold onClose
  dsimp only
  rw [fst_rpcOnClose]
  rfl

@[simp] theorem addrCount_started : c.started.addrCount = c.addrCount := by
  unfold started
  split_ifs <;> rfl

@[simp] theorem currIndex_started : c.started.currIndex = c.currIndex := by
  unfold started
  split_ifs <;> rfl

@[simp] theorem onConnectCalled_started : c.started.onConnectCalled = c.onConnectCalled := by
  unfold started
  split_ifs <;> rfl

end Lemmas

/-- Waiting to reconnect is something that goes on. -/
theorem alive_reconnectLater (c : RpcClt) : c.reconnectLater.Alive := .inr (.inr rfl)

theorem fit_reconnectLater {c : RpcClt} (h : c.Idle) : c.reconnectLater.Fit :=
  ⟨fun hsock => absurd (h.1.symm.trans hsock) (by decide),
    fun hsock => absurd (h.1.symm.trans hsock) (by decide), fun _ => ⟨h.1, h.2.1⟩⟩

theorem not_alive {c : RpcClt} (hsock : c.sock = .closed) (htimer : c.timer ≠ some .reconnect) :
    ¬c.Alive := by
  intro h
  rcases h with ⟨hconnected, -⟩ | ⟨hconnecting, -⟩ | hreconnect
  · exact absurd (hsock.symm.trans hconnected) (by decide)
  · exact absurd (hsock.symm.trans hconnecting) (by decide)
  · exact htimer hreconnect

theorem not_alive_of_idle {c : RpcClt} (h : c.Idle) : ¬c.Alive := by
  apply not_alive h.1
  rw [h.2.2]
  decide

/-! ## One start -/

/-- The client whose connection has failed at once, as `on_connect` closes it. -/
def refused (c : RpcClt) : RpcClt := { c.opened with onConnectCalled := true }

theorem nwCltStart_failed (inner again : Attempt) (c : RpcClt) :
    nwCltStart (.failed inner again) c =
      ((c.refused.onClose (nwCltStart inner)).onClose (nwCltStart again)).started := rfl

theorem addrCount_onClose {start : RpcClt → RpcClt} (h : ∀ c, (start c).addrCount = c.addrCount)
    (c : RpcClt) : (c.onClose start).addrCount = c.addrCount := by
  rw [onClose_eq]
  split_ifs
  · rw [h, addrCount_nwCltClose]
  · exact addrCount_nwCltClose c

@[simp] theorem addrCount_nwCltStart (a : Attempt) (c : RpcClt) :
    (nwCltStart a c).addrCount = c.addrCount := by
  induction a generalizing c with
  | noSocket => rfl
  | now => rfl
  | pending => rfl
  | failed inner again ihinner ihagain =>
    rw [nwCltStart_failed, addrCount_started, addrCount_onClose ihagain, addrCount_onClose ihinner]
    rfl

theorem currIndex_onClose {a : Attempt}
    (h : ∀ c, (nwCltStart a c).currIndex = a.index c.addrCount c.currIndex) (c : RpcClt) :
    (c.onClose (nwCltStart a)).currIndex = a.between c.addrCount c.currIndex := by
  rw [onClose_eq, Attempt.between]
  split_ifs
  · rw [h, addrCount_nwCltClose, currIndex_nwCltClose]
  · exact currIndex_nwCltClose c

theorem currIndex_nwCltStart (a : Attempt) (c : RpcClt) :
    (nwCltStart a c).currIndex = a.index c.addrCount c.currIndex := by
  induction a generalizing c with
  | noSocket => rfl
  | now => rfl
  | pending => rfl
  | failed inner again ihinner ihagain =>
    rw [nwCltStart_failed, currIndex_started, currIndex_onClose ihagain,
      addrCount_onClose (addrCount_nwCltStart inner), currIndex_onClose ihinner]
    rfl

/-- Whether `on_connect` has been called after a start that may not have been made. -/
theorem onConnectCalled_onClose {a : Attempt}
    (h : ∀ c, (nwCltStart a c).onConnectCalled = false ↔
      a.Hangs c.addrCount c.currIndex ∨ a = .noSocket ∧ c.onConnectCalled = false) (c : RpcClt) :
    (c.onClose (nwCltStart a)).onConnectCalled = false ↔
      if (rotate c.addrCount c.currIndex).1 ∧ a ≠ .noSocket then
        a.Hangs c.addrCount (rotate c.addrCount c.currIndex).2
      else c.onConnectCalled = false := by
  rw [onClose_eq]
  by_cases hnowait : (rotate c.addrCount c.currIndex).1 = true
  · rw [if_pos hnowait, h, addrCount_nwCltClose, currIndex_nwCltClose, onConnectCalled_nwCltClose]
    by_cases ha : a = .noSocket
    · subst ha
      rw [if_neg (fun h => h.2 rfl)]
      simp [Attempt.Hangs]
    · rw [if_pos ⟨hnowait, ha⟩]
      simp [ha]
  · rw [if_neg hnowait, if_neg (fun h => hnowait h.1)]
    rw [← onConnectCalled_nwCltClose c]
    rfl

/-- After `inner` may have been started. -/
theorem onConnectCalled_refused {inner : Attempt}
    (h : ∀ c, (nwCltStart inner c).onConnectCalled = false ↔
      inner.Hangs c.addrCount c.currIndex ∨ inner = .noSocket ∧ c.onConnectCalled = false)
    (c : RpcClt) :
    (c.refused.onClose (nwCltStart inner)).onConnectCalled = false ↔
      (rotate c.addrCount c.currIndex).1 ∧
        inner.Hangs c.addrCount (rotate c.addrCount c.currIndex).2 := by
  rw [onConnectCalled_onClose h]
  show (if (rotate c.addrCount c.currIndex).1 ∧ inner ≠ Attempt.noSocket then
    inner.Hangs c.addrCount (rotate c.addrCount c.currIndex).2 else true = false) ↔ _
  split_ifs with hmade
  · exact ⟨fun hhangs => ⟨hmade.1, hhangs⟩, And.right⟩
  · refine ⟨fun hfalse => absurd hfalse (by decide), fun ⟨hnowait, hhangs⟩ => ?_⟩
    have hne : inner ≠ .noSocket := by
      rintro rfl
      exact hhangs
    exact absurd ⟨hnowait, hne⟩ hmade

theorem onConnectCalled_nwCltStart (a : Attempt) (c : RpcClt) :
    (nwCltStart a c).onConnectCalled = false ↔
      a.Hangs c.addrCount c.currIndex ∨ a = .noSocket ∧ c.onConnectCalled = false := by
  induction a generalizing c with
  | noSocket => simp [nwCltStart, Attempt.Hangs]
  | now =>
    constructor
    · exact fun h => absurd (show true = false from h) (by decide)
    · simp [Attempt.Hangs]
  | pending => exact iff_of_true rfl (.inl trivial)
  | failed inner again ihinner ihagain =>
    rw [nwCltStart_failed, onConnectCalled_started, onConnectCalled_onClose ihagain,
      addrCount_onClose (addrCount_nwCltStart inner),
        currIndex_onClose (currIndex_nwCltStart inner),
      onConnectCalled_refused ihinner, Attempt.Hangs]
    exact (or_iff_left (fun h => absurd h.1 (by simp))).symm

/-- The end of a start with nothing open. -/
theorem fit_started {c : RpcClt} (hsock : c.sock = .closed) (hconnected : c.connected = false) :
    c.started.Fit ∧ (c.started.onConnectCalled = false → c.started.timer = some .connect) := by
  unfold started
  split_ifs with hcalled
  · exact ⟨⟨fun h => absurd (hsock.symm.trans h) (by decide),
      fun h => absurd (hsock.symm.trans h) (by decide), fun h => absurd h (by simp [watchConnect])⟩,
      fun _ => rfl⟩
  · exact ⟨⟨fun h => absurd (hsock.symm.trans h) (by decide),
      fun h => absurd (hsock.symm.trans h) (by decide), fun _ => ⟨hsock, hconnected⟩⟩,
      fun h => absurd h hcalled⟩

/-- The timer of a connection that is set already is set again. -/
theorem started_eq {c : RpcClt} (h : c.onConnectCalled = false → c.timer = some .connect) :
    c.started = c := by
  unfold started watchConnect
  split_ifs with hcalled
  · rw [← h hcalled]
  · rfl

/-- What a start leaves at the event loop: where `on_connect` has not been called, the timer is that
of a connection. -/
theorem fit_nwCltStart {a : Attempt} (ha : a ≠ .noSocket) {c : RpcClt} (h : c.Idle) :
    (nwCltStart a c).Fit ∧
      ((nwCltStart a c).onConnectCalled = false → (nwCltStart a c).timer = some .connect) := by
  induction a generalizing c with
  | noSocket => exact absurd rfl ha
  | now =>
    exact ⟨⟨fun hsock => absurd (show CltSock.connected = .connecting from hsock) (by decide),
      fun _ => rfl, fun htimer => absurd (h.2.2.symm.trans htimer) (by decide)⟩,
      fun hcalled => absurd (show true = false from hcalled) (by decide)⟩
  | pending =>
    exact ⟨⟨fun _ => ⟨rfl, rfl⟩,
      fun hsock => absurd (show CltSock.connecting = .connected from hsock) (by decide),
      fun htimer => absurd (show some CltTimer.connect = some .reconnect from htimer) (by decide)⟩,
      fun _ => rfl⟩
  | failed inner again _ ihagain =>
    rw [nwCltStart_failed, onClose_eq]
    split_ifs with hnowait
    · by_cases hagain : again = .noSocket
      · subst hagain
        exact fit_started rfl rfl
      · have hfit := ihagain hagain (idle_nwCltClose (c.refused.onClose (nwCltStart inner)))
        rw [started_eq hfit.2]
        exact hfit
    · exact fit_started rfl rfl

theorem not_alive_started {c : RpcClt} (h : c.Idle) : ¬c.started.Alive := by
  unfold started
  split_ifs
  · exact not_alive h.1 (by simp [watchConnect])
  · exact not_alive_of_idle h

theorem alive_started_reconnectLater {c : RpcClt} (h : c.Idle) :
    c.reconnectLater.started.Alive ↔ ¬c.onConnectCalled = false := by
  unfold started
  split_ifs with hcalled
  · exact iff_of_false (not_alive h.1 (by simp [watchConnect])) (not_not.mpr hcalled)
  · exact iff_of_true (alive_reconnectLater c) hcalled

/-- A start leaves something that goes on exactly where it is clean. -/
theorem alive_nwCltStart_iff (a : Attempt) {c : RpcClt} (h : c.Idle) :
    (nwCltStart a c).Alive ↔ a.Clean c.addrCount c.currIndex := by
  induction a generalizing c with
  | noSocket => exact iff_of_false (not_alive_of_idle h) id
  | now => exact iff_of_true (.inl ⟨rfl, rfl⟩) trivial
  | pending => exact iff_of_true (.inr (.inl ⟨rfl, rfl⟩)) trivial
  | failed inner again _ ihagain =>
    have hcount : (c.refused.onClose (nwCltStart inner)).addrCount = c.addrCount :=
      addrCount_onClose (addrCount_nwCltStart inner) _
    have hindex : (c.refused.onClose (nwCltStart inner)).currIndex =
        inner.between c.addrCount c.currIndex :=
      currIndex_onClose (currIndex_nwCltStart inner) _
    have hcalled := onConnectCalled_refused (onConnectCalled_nwCltStart inner) c
    have hidle := idle_nwCltClose (c.refused.onClose (nwCltStart inner))
    rw [nwCltStart_failed, onClose_eq, hcount, hindex, Attempt.Clean]
    by_cases hnowait : (rotate c.addrCount (inner.between c.addrCount c.currIndex)).1 = true
    · rw [if_pos hnowait, if_pos hnowait]
      by_cases hagain : again = .noSocket
      · subst hagain
        exact iff_of_false (not_alive_started hidle) id
      · rw [started_eq (fit_nwCltStart hagain hidle).2, ihagain hidle, addrCount_nwCltClose,
          currIndex_nwCltClose, hcount, hindex]
    · rw [if_neg hnowait, if_neg hnowait, alive_started_reconnectLater hidle,
        onConnectCalled_nwCltClose, hcalled]

theorem fit_of_clean {a : Attempt} {c : RpcClt} (h : c.Idle)
    (hclean : a.Clean c.addrCount c.currIndex) : (nwCltStart a c).Fit := by
  refine (fit_nwCltStart ?_ h).1
  rintro rfl
  exact hclean

/-! ## Runs -/

/-- A start after `on_close` is made and clean, or is not made. -/
def CleanClose (c : RpcClt) (a : Attempt) : Prop :=
  (rotate c.addrCount c.currIndex).1 = true → a.Clean c.addrCount (rotate c.addrCount c.currIndex).2

/-- The start that an event leads to, if it leads to one, is clean. -/
def CleanEvent (c : RpcClt) : Event → Prop
  | .connect result a => c.sock = .connecting → result = false → c.CleanClose a
  | .timer a =>
    (c.timer = some .reconnect → a.Clean c.addrCount c.currIndex) ∧
      (c.timer = some .connect → c.onConnectCalled = false →
        a.Clean c.addrCount (rotate c.addrCount c.currIndex).2)
  | .lost a => c.sock ≠ .closed → c.CleanClose a
  | .heartbeat late a =>
    c.connected = true → late = true → a.Clean c.addrCount (rotate c.addrCount c.currIndex).2

section Steps

variable {c : RpcClt} {a : Attempt}

/-- A start after `nw_clt_close`. -/
theorem alive_closed_iff (c : RpcClt) (a : Attempt) :
    (nwCltStart a c.nwCltClose).Alive ↔ a.Clean c.addrCount (rotate c.addrCount c.currIndex).2 := by
  rw [alive_nwCltStart_iff a (idle_nwCltClose c), addrCount_nwCltClose, currIndex_nwCltClose]

theorem fit_closed (h : a.Clean c.addrCount (rotate c.addrCount c.currIndex).2) :
    (nwCltStart a c.nwCltClose).Fit := by
  refine fit_of_clean (idle_nwCltClose c) ?_
  rwa [addrCount_nwCltClose, currIndex_nwCltClose]

theorem alive_onClose_iff (c : RpcClt) (a : Attempt) :
    (c.onClose (nwCltStart a)).Alive ↔ c.CleanClose a := by
  rw [onClose_eq]
  by_cases hnowait : (rotate c.addrCount c.currIndex).1 = true
  · rw [if_pos hnowait, alive_closed_iff]
    exact ⟨fun h _ => h, fun h => h hnowait⟩
  · rw [if_neg hnowait]
    exact iff_of_true (alive_reconnectLater _) fun h => absurd h hnowait

theorem fit_onClose (h : c.CleanClose a) : (c.onClose (nwCltStart a)).Fit := by
  rw [onClose_eq]
  split_ifs with hnowait
  · exact fit_closed (h hnowait)
  · exact fit_reconnectLater (idle_nwCltClose c)

/-- The result of a connection. -/
theorem step_connect (hfit : c.Fit) (halive : c.Alive) (result : Bool) (a : Attempt) :
    ((c.step (.connect result a)).Alive ↔ c.CleanEvent (.connect result a)) ∧
      (c.CleanEvent (.connect result a) → (c.step (.connect result a)).Fit) := by
  unfold step
  dsimp only
  by_cases hsock : c.sock = .connecting
  · rw [if_pos hsock]
    cases result with
    | true =>
      refine ⟨iff_of_true (.inl ⟨rfl, rfl⟩) fun _ h => absurd h (by decide), fun _ => ?_⟩
      exact ⟨fun h => absurd (show CltSock.connected = .connecting from h) (by decide),
        fun _ => rfl, fun h => absurd ((hfit.connecting hsock).2.symm.trans h) (by decide)⟩
    | false =>
      have hevent : c.CleanEvent (.connect false a) ↔ c.CleanClose a :=
        ⟨fun h => h hsock rfl, fun h _ _ => h⟩
      rw [hevent]
      exact ⟨alive_onClose_iff { c with onConnectCalled := true } a,
        fit_onClose (c := { c with onConnectCalled := true })⟩
  · rw [if_neg hsock]
    exact ⟨iff_of_true halive fun h => absurd h hsock, fun _ => hfit⟩

/-- The timer fires. -/
theorem step_timer (hfit : c.Fit) (halive : c.Alive) (a : Attempt) :
    ((c.step (.timer a)).Alive ↔ c.CleanEvent (.timer a)) ∧
      (c.CleanEvent (.timer a) → (c.step (.timer a)).Fit) := by
  show ((c.onTimeout a).Alive ↔ _) ∧ (_ → (c.onTimeout a).Fit)
  unfold onTimeout CleanEvent
  split
  · next htimer =>
    rw [htimer]
    exact ⟨iff_of_true halive ⟨nofun, nofun⟩, fun _ => hfit⟩
  · next htimer =>
    obtain ⟨hsock, hconnected⟩ := hfit.reconnect htimer
    have hidle : Idle { c with timer := none } := ⟨hsock, hconnected, rfl⟩
    rw [htimer]
    exact ⟨(alive_nwCltStart_iff a hidle).trans ⟨fun h => ⟨fun _ => h, nofun⟩, fun h => h.1 rfl⟩,
      fun h => fit_of_clean hidle (h.1 rfl)⟩
  · next htimer =>
    by_cases hcalled : c.onConnectCalled = true
    · rw [if_pos hcalled, htimer]
      have hconnecting : c.sock ≠ .connecting := fun h =>
        absurd (hcalled.symm.trans (hfit.connecting h).1) (by decide)
      have hconnected : c.sock = .connected ∧ c.connected = true := by
        obtain h | ⟨h, -⟩ | h := halive
        · exact h
        · exact absurd h hconnecting
        · exact absurd (htimer.symm.trans h) (by decide)
      exact ⟨iff_of_true (.inl hconnected) ⟨nofun, fun _ h => absurd (hcalled.symm.trans h) (by decide)⟩,
        fun _ => ⟨fun h => absurd h hconnecting, fun _ => hconnected.2, nofun⟩⟩
    · rw [if_neg hcalled, htimer]
      have hnot : c.onConnectCalled = false := Bool.eq_false_iff.mpr hcalled
      exact ⟨(alive_closed_iff { c with timer := none } a).trans
          ⟨fun h => ⟨nofun, fun _ _ => h⟩, fun h => h.2 rfl hnot⟩,
        fun h => fit_closed (c := { c with timer := none }) (h.2 rfl hnot)⟩

/-- The peer closes the connection, or there is an error. -/
theorem step_lost (hfit : c.Fit) (halive : c.Alive) (a : Attempt) :
    ((c.step (.lost a)).Alive ↔ c.CleanEvent (.lost a)) ∧
      (c.CleanEvent (.lost a) → (c.step (.lost a)).Fit) := by
  unfold step
  dsimp only
  by_cases hsock : c.sock = .closed
  · rw [if_pos hsock]
    exact ⟨iff_of_true halive fun h => absurd hsock h, fun _ => hfit⟩
  · rw [if_neg hsock]
    exact ⟨(alive_onClose_iff c a).trans ⟨fun h _ => h, fun h => h hsock⟩,
      fun h => fit_onClose (h hsock)⟩

theorem step_heartbeat (hfit : c.Fit) (halive : c.Alive) (late : Bool) (a : Attempt) :
    ((c.step (.heartbeat late a)).Alive ↔ c.CleanEvent (.heartbeat late a)) ∧
      (c.CleanEvent (.heartbeat late a) → (c.step (.heartbeat late a)).Fit) := by
  unfold step
  dsimp only
  by_cases hlate : c.connected = true ∧ late = true
  · rw [if_pos (by rw [hlate.1, hlate.2]; rfl)]
    exact ⟨(alive_closed_iff c a).trans ⟨fun h _ _ => h, fun h => h hlate.1 hlate.2⟩,
      fun h => fit_closed (h hlate.1 hlate.2)⟩
  · rw [if_neg (fun h => hlate ((Bool.and_eq_true _ _).mp h))]
    exact ⟨iff_of_true halive fun hconnected h => absurd ⟨hconnected, h⟩ hlate, fun _ => hfit⟩

end Steps

theorem idle_create (n i : ℕ) : (create n i).Idle := ⟨rfl, rfl, rfl⟩

end RpcClt

end ViabtcExchange
