import ViabtcExchange.Job
import ViabtcExchange.Load
import ViabtcExchange.Sessions

/-!
# The server of readhistory (`rh_server.c`)

A request is answered by a thread of a pool, and the answer goes to what the session has as its peer
at that time. A TCP session has one peer. All who send datagrams to a UDP socket share the session
that listens there, whose id is 0 and whose peer is whoever sent the last datagram.

Main result: `ReadServer.answered_where_asked`.
-/

namespace ViabtcExchange

/-- `nw_addr_t`. -/
abbrev PeerAddr : Type := String

/-- `struct job_request`, with its place among the requests. -/
structure JobRequest where
  ses : Ses
  sesId : ℕ
  command : ℕ
  params : List Json
  no : ℕ

/-- `struct job_reply`. -/
structure JobReply where
  code : ℤ
  message : String
  result : Option Json

/-- What `reply_json` is given. -/
inductive ReadReply
  | error (code : ℤ) (message : String)
  | result (result : Json)

/-- An answer, with the request it is to and where it was sent. -/
structure ReadAnswer where
  no : ℕ
  addr : PeerAddr
  reply : ReadReply

/-- readhistory. `sockets` are the sessions that listen for datagrams, with the peer of the last.
For the theorems only are recorded who sent each request, and all datagrams. -/
structure ReadServer where
  svr : NwSvr PeerAddr
  sockets : Dict Ses (Option PeerAddr)
  job : Job JobRequest
  finished : ℕ
  asked : List PeerAddr
  received : List (Ses × PeerAddr)
  sent : List ReadAnswer

namespace ReadServer

variable (w : ReadServer)

/-- `ses->peer_addr`. -/
def peerAddr (ses : Ses) : Option PeerAddr :=
  match w.sockets.find ses with
  | some addr => addr
  | none => (w.svr.clients.find ses).map Client.privdata

/-- `nw_svr_close_clt`: a socket stays. -/
def closeClt (ses : Ses) : ReadServer :=
  if w.svr.id ses = 0 then w else { w with svr := w.svr.closeClt ses }

/-- `rpc_send`. A connection that it fails on is closed. -/
def send (fails : Bool) (ses : Ses) (no : ℕ) (reply : ReadReply) : ReadServer :=
  match fails, w.peerAddr ses with
  | false, some addr => { w with sent := w.sent ++ [⟨no, addr, reply⟩] }
  | _, _ => w.closeClt ses

def replyErrorInternalError : ReadReply := .error 2 "internal error"

def replyErrorServiceUnavailable : ReadReply := .error 3 "service unavailable"

def maxPendingJob : ℕ := 10

/-- `svr_on_recv_pkg`, of a request from an address. Parameters that are no array close a
connection. -/
def svrOnRecvPkg (workerNum : ℕ) (fails : Bool) (ses : Ses) (addr : PeerAddr) (command : ℕ)
    (params : Option (List Json)) : ReadServer :=
  let no := w.asked.length
  let w := { w with asked := w.asked ++ [addr] }
  match params with
  | none => w.closeClt ses
  | some params =>
    if maxPendingJob * workerNum ≤ w.job.requests.length then
      w.send fails ses no replyErrorServiceUnavailable
    else { w with job := w.job.add ⟨ses, w.svr.id ses, command, params, no⟩ }

/-- `on_can_read` of a socket: a datagram comes from an address, with a request or without. -/
def recvfrom (workerNum : ℕ) (fails : Bool) (ses : Ses) (addr : PeerAddr)
    (request : Option (ℕ × Option (List Json))) : ReadServer :=
  let w := { w with
    sockets := w.sockets.insert ses (some addr)
    received := w.received ++ [(ses, addr)] }
  match request with
  | none => w
  | some (command, params) => w.svrOnRecvPkg workerNum fails ses addr command params

/-- `on_job_finish`. -/
def onJobFinish (fails : Bool) (req : JobRequest) (reply : Option JobReply) : ReadServer :=
  if w.svr.id req.ses ≠ req.sesId then w
  else
    match reply with
    | none => w.send fails req.ses req.no replyErrorInternalError
    | some rsp =>
      if rsp.code ≠ 0 then w.send fails req.ses req.no (.error rsp.code rsp.message)
      else
        match rsp.result with
        | some result => w.send fails req.ses req.no (.result result)
        | none => w

/-! ## Runs -/

inductive Act
  | connect (ses : Ses) (addr : PeerAddr)
  | close (ses : Ses)
  | request (ses : Ses) (command : ℕ) (params : Option (List Json)) (fails : Bool)
  | datagram (ses : Ses) (addr : PeerAddr) (request : Option (ℕ × Option (List Json))) (fails : Bool)
  | thread (move : Job.Move)
  | finish (reply : Option JobReply) (fails : Bool)

/-- One step. A datagram has a whole request or none. What the threads have done is finished in the
order in which they have done it. -/
inductive Step (workerNum : ℕ) : ReadServer → Act → ReadServer → Prop
  | connect {w : ReadServer} {ses : Ses} {addr : PeerAddr} : w.svr.id ses = 0 →
      w.sockets.find ses = none →
      Step workerNum w (.connect ses addr) { w with svr := w.svr.addClt ses addr }
  | close {w : ReadServer} {ses : Ses} : Step workerNum w (.close ses) (w.closeClt ses)
  | request {w : ReadServer} {ses : Ses} {addr : PeerAddr} {command : ℕ} {params : Option (List Json)}
      {fails : Bool} : (w.svr.clients.find ses).map Client.privdata = some addr →
      Step workerNum w (.request ses command params fails)
        (w.svrOnRecvPkg workerNum fails ses addr command params)
  | datagram {w : ReadServer} {ses : Ses} {addr : PeerAddr}
      {request : Option (ℕ × Option (List Json))} {fails : Bool} : w.sockets.find ses ≠ none →
      Step workerNum w (.datagram ses addr request fails) (w.recvfrom workerNum fails ses addr request)
  | thread {w : ReadServer} {move : Job.Move} {job : Job JobRequest} : w.job.move move = some job →
      Step workerNum w (.thread move) { w with job := job }
  | finish {w : ReadServer} {req : JobRequest} {reply : Option JobReply} {fails : Bool} :
      w.job.replies[w.finished]? = some req →
      Step workerNum w (.finish reply fails)
        { w.onJobFinish fails req reply with finished := w.finished + 1 }

/-- readhistory as it starts, with its sockets. -/
def start (workerNum : ℕ) (sockets : List Ses) : ReadServer :=
  ⟨NwSvr.create, sockets.foldl (fun d ses => d.insert ses none) ∅, Job.create workerNum, 0, [], [], []⟩

/-- The states after steps that are `ok` where they are taken. -/
inductive Reached (workerNum : ℕ) (sockets : List Ses) (ok : ReadServer → Act → Prop) :
    ReadServer → Prop
  | refl : Reached workerNum sockets ok (start workerNum sockets)
  | step {w w' : ReadServer} {act : Act} : Reached workerNum sockets ok w → ok w act →
    Step workerNum w act w' → Reached workerNum sockets ok w'

/-! ## Where answers go -/

/-- Who sent the last datagram to a socket. -/
def lastFrom (ses : Ses) : Option PeerAddr :=
  ((w.received.filter fun d => d.1 = ses).getLast?).map Prod.snd

/-- When a request that came by datagram is finished, no other peer has sent one to the socket
since. -/
def Undisturbed (w : ReadServer) : Act → Prop
  | .finish _ _ => ∀ req, w.job.replies[w.finished]? = some req → w.sockets.find req.ses ≠ none →
      w.lastFrom req.ses = w.asked[req.no]?
  | _ => True

/-- A socket has the peer of its last datagram. A request that came over a connection has the peer
of this, if it is open still. What was sent went to who asked. -/
structure Remembered (w : ReadServer) : Prop where
  peers : ∀ ses addr, w.sockets.find ses = some addr → addr = w.lastFrom ses
  apart : ∀ ses, w.sockets.find ses ≠ none → w.svr.id ses = 0
  jobs : ∀ req ∈ w.job.all, w.sockets.find req.ses = none →
    0 < req.sesId ∧ req.sesId < w.svr.nextId ∧ ∀ conn, w.svr.clients.find req.ses = some conn →
      conn.id = req.sesId → w.asked[req.no]? = some conn.privdata
  sent : ∀ a ∈ w.sent, w.asked[a.no]? = some a.addr

section Steps

variable {w w' : ReadServer} {ses : Ses} {addr : PeerAddr} {workerNum : ℕ} {sockets : List Ses}

theorem Remembered.closeClt (h : w.Remembered) (ses : Ses) : (w.closeClt ses).Remembered := by
  unfold ReadServer.closeClt
  split_ifs with hid
  · exact h
  · refine ⟨h.peers, fun ses' hses' => ?_, fun req hreq hsocket => ?_, h.sent⟩
    · show (w.svr.closeClt ses).id ses' = 0
      rw [NwSvr.id_eq_zero, NwSvr.find_closeClt]
      split_ifs
      · rfl
      · exact NwSvr.id_eq_zero.mp (h.apart ses' hses')
    · obtain ⟨hpos, hlt, hconn⟩ := h.jobs req hreq hsocket
      refine ⟨hpos, hlt, fun conn hfind => hconn conn ?_⟩
      have hfind' : (w.svr.closeClt ses).clients.find req.ses = some conn := hfind
      rw [NwSvr.find_closeClt] at hfind'
      split_ifs at hfind'
      exact hfind'

theorem Remembered.send (h : w.Remembered) {fails : Bool} {no : ℕ} {reply : ReadReply}
    (hpeer : ∀ addr, w.peerAddr ses = some addr → w.asked[no]? = some addr) :
    (w.send fails ses no reply).Remembered := by
  unfold ReadServer.send
  split
  · rename_i addr hfind
    refine ⟨h.peers, h.apart, h.jobs, fun a ha => ?_⟩
    rcases List.mem_append.mp ha with ha | ha
    · exact h.sent a ha
    · rw [List.mem_singleton.mp ha]
      exact hpeer addr hfind
  · exact h.closeClt ses

theorem Remembered.ask (h : w.Remembered) (addr : PeerAddr) :
    Remembered { w with asked := w.asked ++ [addr] } := by
  have hold : ∀ {i : ℕ} {a : PeerAddr}, w.asked[i]? = some a →
      (w.asked ++ [addr])[i]? = some a := by
    intro i a hi
    rw [List.getElem?_append_left (List.getElem?_eq_some_iff.mp hi).1, hi]
  refine ⟨h.peers, h.apart, fun req hreq hsocket => ?_, fun a ha => hold (h.sent a ha)⟩
  obtain ⟨hpos, hlt, hconn⟩ := h.jobs req hreq hsocket
  exact ⟨hpos, hlt, fun conn hfind hid => hold (hconn conn hfind hid)⟩

theorem Remembered.svrOnRecvPkg (h : w.Remembered) (hpeer : w.peerAddr ses = some addr)
    (fails : Bool) (command : ℕ) (params : Option (List Json)) :
    (w.svrOnRecvPkg workerNum fails ses addr command params).Remembered := by
  have hask := h.ask addr
  have hlast : (w.asked ++ [addr])[w.asked.length]? = some addr := List.getElem?_concat_length
  unfold ReadServer.svrOnRecvPkg
  cases params with
  | none => exact hask.closeClt ses
  | some params =>
    dsimp only
    split_ifs
    · refine hask.send fun addr' haddr' => ?_
      have hsame : w.peerAddr ses = some addr' := haddr'
      rw [hpeer] at hsame
      rw [← Option.some.inj hsame]
      exact hlast
    · refine ⟨hask.peers, hask.apart, fun req hreq hsocket => ?_, hask.sent⟩
      rw [Job.all_add, List.mem_append] at hreq
      rcases hreq with hreq | hreq
      · exact hask.jobs req hreq hsocket
      · rw [List.mem_singleton.mp hreq] at hsocket ⊢
        have hsocket' : w.sockets.find ses = none := hsocket
        unfold peerAddr at hpeer
        rw [hsocket'] at hpeer
        obtain ⟨conn, hfind, rfl⟩ := Option.map_eq_some_iff.mp hpeer
        have hid : w.svr.id ses = conn.id := by
          unfold NwSvr.id
          rw [hfind]
          rfl
        dsimp only
        rw [hid]
        refine ⟨w.svr.positive ses conn hfind,
          (w.svr.below ses conn hfind).trans_le w.svr.idStart_le, fun conn' hfind' _ => ?_⟩
        rw [hfind] at hfind'
        rw [← Option.some.inj hfind']
        exact hlast

theorem lastFrom_received (w : ReadServer) (ses ses' : Ses) (addr : PeerAddr) :
    ReadServer.lastFrom { w with
      sockets := w.sockets.insert ses (some addr)
      received := w.received ++ [(ses, addr)] } ses' =
      if ses' = ses then some addr else w.lastFrom ses' := by
  show ((List.filter _ (w.received ++ [(ses, addr)])).getLast?).map Prod.snd = _
  rw [List.filter_append]
  split_ifs with hses
  · rw [List.filter_cons_of_pos (by simpa using hses.symm), List.filter_nil, List.getLast?_concat]
    rfl
  · rw [List.filter_cons_of_neg (by simpa using Ne.symm hses), List.filter_nil, List.append_nil]
    rfl

theorem Remembered.recvfrom (h : w.Remembered) (hsocket : w.sockets.find ses ≠ none) (fails : Bool)
    (request : Option (ℕ × Option (List Json))) :
    (w.recvfrom workerNum fails ses addr request).Remembered := by
  have hfind : ∀ s, ({ w with
      sockets := w.sockets.insert ses (some addr)
      received := w.received ++ [(ses, addr)] } : ReadServer).sockets.find s =
      if s = ses then some (some addr) else w.sockets.find s := fun s => Dict.find_insert ..
  have hnone : ∀ s, Dict.find (w.sockets.insert ses (some addr)) s = none ↔
      w.sockets.find s = none := by
    intro s
    rw [Dict.find_insert]
    by_cases hs : s = ses
    · subst hs
      rw [if_pos rfl]
      exact iff_of_false (Option.some_ne_none _) hsocket
    · rw [if_neg hs]
  have hreceived : Remembered { w with
      sockets := w.sockets.insert ses (some addr)
      received := w.received ++ [(ses, addr)] } := by
    refine ⟨fun s a ha => ?_, fun s hs => h.apart s fun hold => hs ((hnone s).mpr hold),
      fun req hreq hs => h.jobs req hreq ((hnone req.ses).mp hs), h.sent⟩
    rw [hfind] at ha
    rw [lastFrom_received]
    split_ifs at ha ⊢ with hs
    · exact (Option.some.inj ha).symm
    · exact h.peers s a ha
  unfold ReadServer.recvfrom
  cases request with
  | none => exact hreceived
  | some request =>
    refine hreceived.svrOnRecvPkg ?_ fails _ _
    unfold peerAddr
    rw [hfind, if_pos rfl]

theorem Remembered.onJobFinish (h : w.Remembered) {req : JobRequest}
    (hreq : req ∈ w.job.all)
    (hsocket : w.sockets.find req.ses ≠ none → w.lastFrom req.ses = w.asked[req.no]?)
    (fails : Bool) (reply : Option JobReply) : (w.onJobFinish fails req reply).Remembered := by
  unfold ReadServer.onJobFinish
  split_ifs with hid
  · exact h
  · have hsame : w.svr.id req.ses = req.sesId := not_not.mp hid
    have hsend : ∀ reply, (w.send fails req.ses req.no reply).Remembered := by
      intro reply
      refine h.send fun addr haddr => ?_
      unfold peerAddr at haddr
      cases hfind : w.sockets.find req.ses with
      | none =>
        rw [hfind] at haddr
        obtain ⟨conn, hconn, rfl⟩ := Option.map_eq_some_iff.mp haddr
        refine (h.jobs req hreq hfind).2.2 conn hconn ?_
        rw [← hsame]
        unfold NwSvr.id
        rw [hconn]
        rfl
      | some peer =>
        rw [hfind] at haddr
        have hlast := hsocket (by rw [hfind]; exact Option.some_ne_none _)
        rw [← hlast, ← h.peers req.ses peer hfind]
        exact haddr
    split
    · exact hsend _
    · split_ifs
      · exact hsend _
      · split
        · exact hsend _
        · exact h

theorem Remembered.connect (h : w.Remembered) (hsocket : w.sockets.find ses = none) :
    Remembered { w with svr := w.svr.addClt ses addr } := by
  have hnext : (w.svr.addClt ses addr).nextId = w.svr.nextId + 1 := by
    show (if w.svr.nextId + 1 = 0 then 1 else w.svr.nextId + 1) = _
    rw [if_neg (Nat.succ_ne_zero _)]
  refine ⟨h.peers, fun s hs => ?_, fun req hreq hs => ?_, h.sent⟩
  · show (w.svr.addClt ses addr).id s = 0
    rw [NwSvr.id_eq_zero, NwSvr.find_addClt, if_neg, NwSvr.id_eq_zero.mp (h.apart s hs)]
    rintro rfl
    exact hs hsocket
  · obtain ⟨hpos, hlt, hconn⟩ := h.jobs req hreq hs
    dsimp only
    rw [hnext]
    refine ⟨hpos, hlt.trans (Nat.lt_succ_self _), fun conn hfind hid => ?_⟩
    rw [NwSvr.find_addClt] at hfind
    split_ifs at hfind
    · obtain rfl := Option.some.inj hfind
      exact absurd hid hlt.ne'
    · exact hconn conn hfind hid

theorem Remembered.step {act : Act} (h : w.Remembered) (hact : Undisturbed w act)
    (hstep : Step workerNum w act w') : w'.Remembered := by
  cases hstep with
  | connect _ hsocket => exact h.connect hsocket
  | close => exact h.closeClt _
  | @request ses addr command params fails hpeer =>
    refine h.svrOnRecvPkg ?_ fails command params
    have hsocket : w.sockets.find ses = none := by
      by_contra hsome
      rw [NwSvr.id_eq_zero.mp (h.apart ses hsome)] at hpeer
      cases hpeer
    unfold peerAddr
    rw [hsocket]
    exact hpeer
  | datagram hsocket => exact h.recvfrom hsocket _ _
  | thread hmove =>
    have hperm := Job.all_move hmove
    exact ⟨h.peers, h.apart, fun req hreq => h.jobs req (hperm.mem_iff.mp hreq), h.sent⟩
  | @finish req reply fails hreply =>
    have hmem : req ∈ w.job.all :=
      List.mem_append_left _ (List.mem_append_left _ (List.mem_of_getElem? hreply))
    have hfinish := h.onJobFinish hmem (hact req hreply) fails reply
    exact ⟨hfinish.peers, hfinish.apart, hfinish.jobs, hfinish.sent⟩

theorem remembered_start (workerNum : ℕ) (sockets : List Ses) :
    (start workerNum sockets).Remembered := by
  have hsockets : ∀ (l : List Ses) (d : Dict Ses (Option PeerAddr)),
      (∀ ses addr, d.find ses = some addr → addr = none) →
      ∀ ses addr, Dict.find (l.foldl (fun d ses => d.insert ses none) d) ses = some addr →
        addr = none := by
    intro l
    induction l with
    | nil => exact fun d hd => hd
    | cons s l ih =>
      intro d hd
      refine ih _ fun ses addr hfind => ?_
      rw [Dict.find_insert] at hfind
      split_ifs at hfind
      · exact (Option.some.inj hfind).symm
      · exact hd ses addr hfind
  refine ⟨fun ses addr hfind => hsockets sockets ∅ (fun s a ha => ?_) ses addr hfind,
    fun ses _ => ?_, fun req hreq => ?_, fun a ha => absurd ha List.not_mem_nil⟩
  · rw [Dict.find_empty] at ha
    cases ha
  · exact NwSvr.id_eq_zero.mpr (Dict.find_empty ses)
  · have hnone : (start workerNum sockets).job.all = [] := Job.all_create workerNum
    rw [hnone] at hreq
    exact absurd hreq List.not_mem_nil

/-- **Answers go where they were asked**, in every run in which, when a request is finished that
came by datagram, the last datagram on its socket came from where the request did. -/
theorem answered_where_asked (hrun : Reached workerNum sockets Undisturbed w) :
    ∀ a ∈ w.sent, w.asked[a.no]? = some a.addr := by
  have hremembered : w.Remembered := by
    induction hrun with
    | refl => exact remembered_start workerNum sockets
    | step _ hact hstep ih => exact ih.step hact hstep
  exact hremembered.sent

end Steps

/-! ## Two peers of a socket -/

/-- A request has come by datagram to socket 3, and a thread has answered it. -/
def exampleAnswered : ReadServer :=
  let w := (start 1 [3]).recvfrom 1 false 3 "10.0.0.1:5000" (some (208, some []))
  { w with job := ⟨[], false, [.ready], w.job.requests⟩ }

theorem exampleAnswered_reached {ok : ReadServer → Act → Prop}
    (hdatagram : ∀ w addr request, ok w (.datagram 3 addr request false))
    (hthread : ∀ w move, ok w (.thread move)) : Reached 1 [3] ok exampleAnswered := by
  have hasked : Reached 1 [3] ok _ := .step .refl
    (hdatagram _ "10.0.0.1:5000" (some (208, some []))) (.datagram (by decide +kernel))
  have htaken : Reached 1 [3] ok _ := .step hasked (hthread _ (.wake 0)) (.thread rfl)
  exact .step htaken (hthread _ (.reply 0)) (.thread rfl)

def exampleReply : JobReply := ⟨0, "", some (.array [])⟩

/-- With no other datagram the answer goes back. -/
theorem answered_where_asked_alone : ∃ w, Reached 1 [3] Undisturbed w ∧
    w.sent.map ReadAnswer.addr = ["10.0.0.1:5000"] ∧ ∀ a ∈ w.sent, w.asked[a.no]? = some a.addr := by
  have hanswered : Reached 1 [3] Undisturbed exampleAnswered :=
    exampleAnswered_reached (fun _ _ _ => trivial) fun _ _ => trivial
  have hact : Undisturbed exampleAnswered (.finish (some exampleReply) false) := by
    intro req hreq _
    obtain rfl : (⟨3, 0, 208, [], 0⟩ : JobRequest) = req := Option.some.inj hreq
    decide +kernel
  have hfinish := Reached.step hanswered hact
    (@Step.finish 1 exampleAnswered ⟨3, 0, 208, [], 0⟩ (some exampleReply) false rfl)
  exact ⟨_, hfinish, by decide +kernel, answered_where_asked hfinish⟩

/-- Another peer of the socket gets the answer, whose datagram came in between. -/
theorem answered_elsewhere : ∃ w, Reached 1 [3] (fun _ _ => True) w ∧
    w.asked = ["10.0.0.1:5000"] ∧ w.sent.map ReadAnswer.no = [0] ∧
    w.sent.map ReadAnswer.addr = ["10.0.0.2:5000"] := by
  have hanswered : Reached 1 [3] (fun _ _ => True) exampleAnswered :=
    exampleAnswered_reached (fun _ _ _ => trivial) fun _ _ => trivial
  have hother := Reached.step hanswered trivial
    (@Step.datagram 1 exampleAnswered 3 "10.0.0.2:5000" none false (by decide +kernel))
  have hfinish := Reached.step hother trivial
    (@Step.finish 1 _ ⟨3, 0, 208, [], 0⟩ (some exampleReply) false rfl)
  exact ⟨_, hfinish, by decide +kernel, by decide +kernel, by decide +kernel⟩

end ReadServer

end ViabtcExchange
