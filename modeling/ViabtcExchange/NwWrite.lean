import ViabtcExchange.NwRead

/-!
# Writing to a session

`nw_ses_send` and `on_can_write` of `nw_ses.c`, with the list of buffers of `nw_buf.c`. What is sent
goes to the socket, or waits in the list until the socket takes it. The system calls' results are
given, and `errno` is what the last one that failed left. The functions that write return `int`, and
their results are compared with `size_t`.
-/

namespace ViabtcExchange

/-- What `write` or `sendmsg` returns. A message is accepted whole. -/
inductive WriteRet where
  | accept (n : ℕ)
  | again
  | intr
  | error (message : String)
deriving DecidableEq, Repr

inductive Errno where
  | again
  | intr
  | other (message : String)
deriving DecidableEq, Repr

def Errno.strerror : Errno → String
  | again => "Resource temporarily unavailable"
  | intr => "Interrupted system call"
  | other message => message

/-- The `int` of a `size_t`. -/
def intOf (n : ℕ) : ℤ := (n : ℤ).bmod (2 ^ 32)

/-- The `size_t` of an `int`. -/
def sizeT (n : ℤ) : ℕ := (n % 2 ^ 64).toNat

/-- What `nw_write_stream` or `nw_write_packet` leaves: its return value, and what the socket
accepted. -/
structure Wrote where
  ret : ℤ
  errno : Errno
  rets : List WriteRet
  accepted : List (List UInt8)

/-- The loop of `nw_write_stream`: how many bytes were written. Where there are no more results, the
socket is full. -/
def writeStream (errno : Errno) : List WriteRet → List UInt8 → ℕ × Errno × List WriteRet
  | rets, [] => (0, errno, rets)
  | [], _ :: _ => (0, .again, [])
  | .accept 0 :: rets, _ :: _ => (0, errno, rets)
  | .accept (n + 1) :: rets, b :: data =>
    let written := min (n + 1) (data.length + 1)
    let rest := writeStream errno rets ((b :: data).drop written)
    (written + rest.1, rest.2)
  | .intr :: rets, b :: data => writeStream .intr rets (b :: data)
  | .again :: rets, _ :: _ => (0, .again, rets)
  | .error message :: rets, _ :: _ => (0, .other message, rets)

def nwWriteStream (errno : Errno) (rets : List WriteRet) (data : List UInt8) : Wrote :=
  let written := writeStream errno rets data
  ⟨intOf written.1, written.2.1, written.2.2, [data.take written.1]⟩

def nwWritePacket (errno : Errno) : List WriteRet → List UInt8 → Wrote
  | [], _ => ⟨-1, .again, [], []⟩
  | .accept _ :: rets, data =>
    let ret := intOf data.length
    if ret < 0 ∧ errno = .intr then
      let again := nwWritePacket errno rets data
      { again with accepted := data :: again.accepted }
    else ⟨ret, errno, rets, [data]⟩
  | .intr :: rets, data => nwWritePacket .intr rets data
  | .again :: rets, _ => ⟨-1, .again, rets, []⟩
  | .error message :: rets, _ => ⟨-1, .other message, rets, []⟩

/-! ## The list of buffers -/

/-- `nw_buf_list_write` into the last buffer. What is left of the data is returned. -/
def writeTail : List NwBuf → List UInt8 → List NwBuf × List UInt8
  | [], data => ([], data)
  | [tail], data => ([(tail.write data).1], data.drop (tail.write data).2)
  | buf :: next :: bufs, data =>
    let written := writeTail (next :: bufs) data
    (buf :: written.1, written.2)

/-- `nw_buf_list_write` into new buffers, of which there is memory for `budget`. -/
def writeNew (size limit : ℕ) : ℕ → List NwBuf → List UInt8 → List NwBuf × List UInt8
  | _, bufs, [] => (bufs, [])
  | 0, bufs, b :: data => (bufs, b :: data)
  | budget + 1, bufs, b :: data =>
    if limit ≠ 0 ∧ limit ≤ bufs.length then (bufs, b :: data)
    else
      let written := (NwBuf.alloc (List.replicate size 0)).write (b :: data)
      writeNew size limit budget (bufs ++ [written.1]) ((b :: data).drop written.2)

def nwBufListWrite (size limit budget : ℕ) (bufs : List NwBuf) (data : List UInt8) :
    List NwBuf × List UInt8 :=
  let written := writeTail bufs data
  writeNew size limit budget written.1 written.2

/-- `nw_buf_list_append`, and its return value. -/
def nwBufListAppend (size limit budget : ℕ) (bufs : List NwBuf) (data : List UInt8) :
    List NwBuf × ℕ :=
  if limit ≠ 0 ∧ limit ≤ bufs.length then (bufs, 0)
  else if budget = 0 then (bufs, 0)
  else if size < data.length then (bufs, 0)
  else (bufs ++ [((NwBuf.alloc (List.replicate size 0)).write data).1], data.length)

/-! ## The session -/

structure NwOut where
  sockType : SockType
  /-- The size of a buffer, and how many there may be in the list, if not 0. -/
  size : ℕ
  limit : ℕ
  isOpen : Bool
  bufs : List NwBuf
  errno : Errno
  errors : List String
  /-- What was passed to `nw_ses_send`. -/
  given : List (List UInt8)
  /-- What the socket accepted. -/
  accepted : List (List UInt8)

namespace NwOut

def start (sockType : SockType) (size limit : ℕ) : NwOut :=
  ⟨sockType, size, limit, true, [], .intr, [], [], []⟩

/-- `on_error` closes a connection. -/
def onError (out : NwOut) (message : String) : NwOut :=
  { out with errors := out.errors ++ [message], isOpen := false, bufs := [] }

def write (out : NwOut) (rets : List WriteRet) (data : List UInt8) : Wrote :=
  match out.sockType with
  | .stream => nwWriteStream out.errno rets data
  | .dgram | .seqpacket => nwWritePacket out.errno rets data

def give (out : NwOut) (data : List UInt8) : NwOut :=
  { out with given := out.given ++ [data] }

def wrote (out : NwOut) (w : Wrote) : NwOut :=
  { out with errno := w.errno, accepted := out.accepted ++ w.accepted }

/-- Put what is left into the list. -/
def keep (out : NwOut) (budget : ℕ) (data : List UInt8) : NwOut :=
  let written := nwBufListWrite out.size out.limit budget out.bufs data
  let out := { out with bufs := written.1 }
  if written.2 ≠ [] then out.onError "no send buf" else out

/-- Put a message into the list. -/
def append (out : NwOut) (budget : ℕ) (data : List UInt8) (message : String) : NwOut :=
  let appended := nwBufListAppend out.size out.limit budget out.bufs data
  let out := { out with bufs := appended.1 }
  if appended.2 ≠ data.length then out.onError message else out

/-- `nw_ses_send`. -/
def send (out : NwOut) (data : List UInt8) (rets : List WriteRet) (budget : ℕ) : NwOut :=
  if out.isOpen = false then out
  else
    let out := out.give data
    if 0 < out.bufs.length then
      match out.sockType with
      | .stream => out.keep budget data
      | .dgram | .seqpacket => out.append budget data "no send buf"
    else
      match out.sockType with
      | .stream =>
        let w := out.write rets data
        let out := out.wrote w
        if sizeT w.ret < data.length then
          if w.errno = .again then out.keep budget (data.drop (sizeT w.ret))
          else out.onError ("write error: " ++ w.errno.strerror)
        else out
      | .dgram =>
        match rets with
        | .accept _ :: _ => { out with accepted := out.accepted ++ [data] }
        | _ => out.onError "sendto error"
      | .seqpacket =>
        let w := out.write rets data
        let out := out.wrote w
        if w.ret < 0 then
          if w.errno = .again then out.append budget data "on send buf"
          else out.onError ("sendmsg error: " ++ w.errno.strerror)
        else out

/-- The loop of `on_can_write`, over the buffers. -/
def flush (out : NwOut) : List NwBuf → List WriteRet → NwOut
  | [], _ => { out with bufs := [] }
  | buf :: bufs, rets =>
    let w := out.write rets buf.held
    let out := out.wrote w
    if sizeT w.ret < buf.bufSize then
      if w.errno = .again then
        match out.sockType with
        | .stream => { out with bufs := buf.advance (sizeT w.ret) :: bufs }
        | .dgram | .seqpacket => { out with bufs := buf :: bufs }
      else { out with bufs := buf :: bufs }.onError ("write error: " ++ w.errno.strerror)
    else flush out bufs w.rets

/-- `on_can_write`. -/
def onCanWrite (out : NwOut) (rets : List WriteRet) : NwOut :=
  if out.isOpen = false then out else out.flush out.bufs rets

/-- What happens to a session: it is sent something, or the socket can be written to. -/
inductive Event where
  | send (data : List UInt8) (rets : List WriteRet) (budget : ℕ)
  | canWrite (rets : List WriteRet)

def step (out : NwOut) : Event → NwOut
  | .send data rets budget => out.send data rets budget
  | .canWrite rets => out.onCanWrite rets

/-- What the socket accepted and what waits is what was sent: the bytes of a stream, or the
messages. -/
def Kept (out : NwOut) : Prop :=
  match out.sockType with
  | .stream => out.accepted.flatten ++ out.bufs.flatMap NwBuf.held = out.given.flatten
  | .dgram | .seqpacket => out.accepted ++ out.bufs.map NwBuf.held = out.given

end NwOut

/-! ## One write -/

theorem writeStream_le (errno : Errno) (rets : List WriteRet) (data : List UInt8) :
    (writeStream errno rets data).1 ≤ data.length := by
  fun_induction writeStream errno rets data with
  | case4 errno n rets b data written rest ih =>
    have hwritten : written ≤ (b :: data).length := Nat.min_le_right _ _
    have hrest : rest.1 ≤ (b :: data).length - written := by
      rw [← List.length_drop]
      exact ih
    show written + rest.1 ≤ _
    omega
  | case5 errno rets b data ih => exact ih
  | _ => exact Nat.zero_le _

/-- A number of bytes that the result of `nw_write_stream` tells: as an `int` it is the same, or all
was written and it still counts as all. -/
def SoundCount (n len : ℕ) : Prop :=
  n < 2 ^ 31 ∨ n = len ∧ len ≤ sizeT (intOf n)

theorem intOf_eq {n : ℕ} (h : n < 2 ^ 31) : intOf n = n :=
  Int.bmod_eq_of_le (by omega) (by omega)

theorem sizeT_intOf {n : ℕ} (h : n < 2 ^ 31) : sizeT (intOf n) = n := by
  rw [intOf_eq h]
  unfold sizeT
  omega

/-- Where the result is sound, what is accepted is what comes before the result. -/
theorem nwWriteStream_accepted {errno : Errno} {rets : List WriteRet} {data : List UInt8}
    (h : SoundCount (writeStream errno rets data).1 data.length) :
    (sizeT (nwWriteStream errno rets data).ret < data.length →
      (nwWriteStream errno rets data).accepted.flatten ++
        data.drop (sizeT (nwWriteStream errno rets data).ret) = data) ∧
    (¬sizeT (nwWriteStream errno rets data).ret < data.length →
      (nwWriteStream errno rets data).accepted.flatten = data) := by
  have hle := writeStream_le errno rets data
  unfold nwWriteStream
  dsimp only
  rw [List.flatten_singleton]
  rcases h with h | ⟨hall, hsize⟩
  · rw [sizeT_intOf h]
    exact ⟨fun _ => List.take_append_drop _ _, fun hge => List.take_of_length_le (not_lt.mp hge)⟩
  · exact ⟨fun hlt => absurd hlt (not_lt.mpr hsize),
      fun _ => List.take_of_length_le hall.ge⟩

/-- What the socket answers to a message: the first result that is not an interruption. -/
def answer (rets : List WriteRet) : WriteRet :=
  (rets.find? (· ≠ .intr)).getD .again

/-- A message is accepted once, or not at all. -/
theorem nwWritePacket_answer {data : List UInt8} (hlen : data.length < 2 ^ 31) (errno : Errno)
    (rets : List WriteRet) :
    (∃ n, answer rets = .accept n) ∧ (nwWritePacket errno rets data).ret = data.length ∧
        (nwWritePacket errno rets data).accepted = [data] ∨
      (∀ n, answer rets ≠ .accept n) ∧ (nwWritePacket errno rets data).ret = -1 ∧
        (nwWritePacket errno rets data).accepted = [] ∧
        ((nwWritePacket errno rets data).errno = .again → answer rets = .again) := by
  induction rets generalizing errno with
  | nil =>
    right
    simp [nwWritePacket, answer]
  | cons r rets ih =>
    cases r with
    | accept n =>
      left
      rw [nwWritePacket]
      dsimp only
      rw [intOf_eq hlen, if_neg (fun h => by omega)]
      simp [answer]
    | again =>
      right
      simp [nwWritePacket, answer]
    | intr =>
      have hanswer : answer (.intr :: rets) = answer rets := by simp [answer]
      rw [hanswer]
      simp only [nwWritePacket]
      exact ih .intr
    | error message =>
      right
      simp [nwWritePacket, answer]

/-! ## The list holds what is written to it -/

theorem write_held (buf : NwBuf) (data : List UInt8) :
    (buf.write data).1.held ++ data.drop (buf.write data).2 = buf.held ++ data := by
  unfold NwBuf.write
  dsimp only
  rw [List.append_assoc, List.take_append_drop]

theorem writeTail_held (bufs : List NwBuf) (data : List UInt8) :
    (writeTail bufs data).1.flatMap NwBuf.held ++ (writeTail bufs data).2 =
      bufs.flatMap NwBuf.held ++ data := by
  fun_induction writeTail bufs data with
  | case1 data => rfl
  | case2 tail data =>
    simp only [List.flatMap_cons, List.flatMap_nil, List.append_nil]
    exact write_held tail data
  | case3 buf next bufs data written ih =>
    rw [List.flatMap_cons, List.append_assoc, ih, List.flatMap_cons (x := buf), List.append_assoc]

theorem writeNew_held (size limit budget : ℕ) (bufs : List NwBuf) (data : List UInt8) :
    (writeNew size limit budget bufs data).1.flatMap NwBuf.held ++
      (writeNew size limit budget bufs data).2 = bufs.flatMap NwBuf.held ++ data := by
  fun_induction writeNew size limit budget bufs data with
  | case4 budget bufs b data hlimit written ih =>
    rw [ih, List.flatMap_append, List.append_assoc, List.flatMap_singleton]
    congr 1
    exact write_held (.alloc (List.replicate size 0)) (b :: data)
  | _ => rfl

theorem nwBufListWrite_held (size limit budget : ℕ) (bufs : List NwBuf) (data : List UInt8) :
    (nwBufListWrite size limit budget bufs data).1.flatMap NwBuf.held ++
      (nwBufListWrite size limit budget bufs data).2 = bufs.flatMap NwBuf.held ++ data := by
  unfold nwBufListWrite
  rw [writeNew_held, writeTail_held]

/-- A message is appended, or the return value says that it is not, unless it is empty. -/
theorem nwBufListAppend_held {size limit budget : ℕ} {bufs : List NwBuf} {data : List UInt8}
    (hroom : data = [] → (limit = 0 ∨ bufs.length < limit) ∧ 0 < budget)
    (h : (nwBufListAppend size limit budget bufs data).2 = data.length) :
    (nwBufListAppend size limit budget bufs data).1.map NwBuf.held =
      bufs.map NwBuf.held ++ [data] := by
  have hnil (h : 0 = data.length) : data = [] := List.length_eq_zero_iff.mp h.symm
  unfold nwBufListAppend at h ⊢
  split_ifs at h ⊢ with hlimit hbudget hsize
  · have := (hroom (hnil h)).1
    omega
  · have := (hroom (hnil h)).2
    omega
  · rw [hnil h] at hsize
    exact absurd hsize (Nat.not_lt_zero _)
  · have hle : data.length ≤ (NwBuf.alloc (List.replicate size 0)).avail := by
      simp only [NwBuf.avail, NwBuf.alloc, List.length_replicate]
      omega
    rw [List.map_append, NwBuf.write_of_le hle]
    rfl

/-! ## Runs -/

namespace NwOut

/-- There is a place in the list for one more buffer, and memory for it. -/
def HasRoom (out : NwOut) (budget : ℕ) : Prop :=
  (out.limit = 0 ∨ out.bufs.length < out.limit) ∧ 0 < budget

/-- What a stream takes of the data is counted right; the messages are shorter than `2 ^ 31`. -/
def SoundData (out : NwOut) (rets : List WriteRet) (data : List UInt8) : Prop :=
  match out.sockType with
  | .stream => SoundCount (writeStream out.errno rets data).1 data.length
  | .dgram | .seqpacket => data.length < 2 ^ 31

/-- Over the buffers that `on_can_write` comes to: what a stream takes is counted right, and the
socket accepts every message. -/
def SoundFlush (out : NwOut) : List NwBuf → List WriteRet → Prop
  | [], _ => True
  | buf :: bufs, rets =>
    let w := out.write rets buf.held
    out.SoundData rets buf.held ∧ (out.sockType ≠ .stream → ∃ n, answer rets = .accept n) ∧
      (¬sizeT w.ret < buf.bufSize → (out.wrote w).SoundFlush bufs w.rets)

/-- An empty message that must wait is not told from one that found no room. -/
def SoundEvent (out : NwOut) : Event → Prop
  | .send data rets budget =>
    (out.bufs = [] ∨ out.sockType ≠ .stream → out.SoundData rets data) ∧
      (out.sockType ≠ .stream → data = [] → out.bufs ≠ [] ∨ answer rets = .again → out.HasRoom budget)
  | .canWrite rets => out.SoundFlush out.bufs rets

/-- The states of a session over any calls and events, each as `ok` allows it. -/
inductive Reached (sockType : SockType) (size limit : ℕ) (ok : NwOut → Event → Prop) : NwOut → Prop
  | start : Reached sockType size limit ok (start sockType size limit)
  | step {out : NwOut} {e : Event} (hout : Reached sockType size limit ok out) (hok : ok out e) :
    Reached sockType size limit ok (out.step e)

/-- Unless `on_error` was called, nothing is lost, repeated or out of order. -/
def Sent (out : NwOut) : Prop :=
  out.errors = [] → out.Kept

theorem sent_onError (out : NwOut) (message : String) : (out.onError message).Sent := fun h =>
  absurd h (List.append_ne_nil_of_right_ne_nil _ (List.cons_ne_nil _ _))

theorem kept_stream {out : NwOut} (h : out.sockType = .stream) :
    out.Kept ↔ out.accepted.flatten ++ out.bufs.flatMap NwBuf.held = out.given.flatten := by
  unfold Kept
  rw [h]

theorem kept_packet {out : NwOut} (h : out.sockType ≠ .stream) :
    out.Kept ↔ out.accepted ++ out.bufs.map NwBuf.held = out.given := by
  unfold Kept
  split
  · next hstream => exact absurd hstream h
  · exact Iff.rfl
  · exact Iff.rfl

/-- What is left of a stream's data goes after what waits. -/
theorem sent_keep {out : NwOut} (htype : out.sockType = .stream) (budget : ℕ) {data : List UInt8}
    (h : out.errors = [] →
      out.accepted.flatten ++ out.bufs.flatMap NwBuf.held ++ data = out.given.flatten) :
    (out.keep budget data).Sent := by
  have hheld := nwBufListWrite_held out.size out.limit budget out.bufs data
  unfold keep
  dsimp only
  split_ifs with hleft
  · exact sent_onError _ _
  · intro herrors
    refine (kept_stream ?_).mpr ?_
    · exact htype
    · rw [not_not.mp hleft, List.append_nil] at hheld
      dsimp only
      rw [hheld, ← List.append_assoc]
      exact h herrors

/-- A message goes after those that wait. -/
theorem sent_append {out : NwOut} (htype : out.sockType ≠ .stream) {budget : ℕ} {data : List UInt8}
    (hroom : data = [] → out.HasRoom budget) (message : String)
    (h : out.errors = [] → out.accepted ++ out.bufs.map NwBuf.held ++ [data] = out.given) :
    (out.append budget data message).Sent := by
  unfold append
  dsimp only
  split_ifs with hall
  · exact sent_onError _ _
  · intro herrors
    refine (kept_packet ?_).mpr ?_
    · exact htype
    · dsimp only
      rw [nwBufListAppend_held hroom (not_not.mp hall), ← List.append_assoc]
      exact h herrors

/-- Where the data is sound, a stream's write accepts what comes before its result. -/
theorem write_stream {out : NwOut} (htype : out.sockType = .stream) {rets : List WriteRet}
    {data : List UInt8} (h : out.SoundData rets data) :
    (sizeT (out.write rets data).ret < data.length →
      (out.write rets data).accepted.flatten ++ data.drop (sizeT (out.write rets data).ret) =
        data) ∧
    (¬sizeT (out.write rets data).ret < data.length →
      (out.write rets data).accepted.flatten = data) := by
  unfold SoundData at h
  unfold write
  rw [htype] at h ⊢
  exact nwWriteStream_accepted h

theorem write_packet {out : NwOut} (htype : out.sockType ≠ .stream) (rets : List WriteRet)
    (data : List UInt8) : out.write rets data = nwWritePacket out.errno rets data := by
  unfold write
  split
  · next hstream => exact absurd hstream htype
  · rfl
  · rfl

theorem soundData_packet {out : NwOut} (htype : out.sockType ≠ .stream) {rets : List WriteRet}
    {data : List UInt8} (h : out.SoundData rets data) : data.length < 2 ^ 31 := by
  unfold SoundData at h
  split at h
  · next hstream => exact absurd hstream htype
  · exact h
  · exact h

/-- `on_can_write` on a stream, whatever of the list it has come to. -/
theorem sent_flush_stream {out : NwOut} (htype : out.sockType = .stream) {bufs : List NwBuf}
    {rets : List WriteRet} (hsound : out.SoundFlush bufs rets)
    (h : NwOut.Sent { out with bufs := bufs }) : (out.flush bufs rets).Sent := by
  induction bufs generalizing out rets with
  | nil => exact h
  | cons buf bufs ih =>
    obtain ⟨hdata, -, hrest⟩ := hsound
    obtain ⟨hpart, hall⟩ := write_stream htype hdata
    have hsent (herrors : out.errors = []) :
        out.accepted.flatten ++ (buf.held ++ bufs.flatMap NwBuf.held) = out.given.flatten :=
      (kept_stream (by exact htype)).mp (h herrors)
    unfold flush
    dsimp only
    by_cases hlt : sizeT (out.write rets buf.held).ret < buf.bufSize
    · rw [if_pos hlt]
      split_ifs with hagain
      · -- the first buffer's bytes that were written are accepted, the others stay in it
        rw [show (out.wrote (out.write rets buf.held)).sockType = .stream from htype]
        intro herrors
        refine (kept_stream ?_).mpr ?_
        · rfl
        · show (out.accepted ++ (out.write rets buf.held).accepted).flatten ++
            (buf.held.drop (sizeT (out.write rets buf.held).ret) ++ bufs.flatMap NwBuf.held) = _
          rw [List.flatten_append, List.append_assoc, ← List.append_assoc _ (List.drop _ _),
            hpart hlt]
          exact hsent herrors
      · exact sent_onError _ _
    · rw [if_neg hlt]
      refine ih ?_ (hrest hlt) fun herrors => ?_
      · exact htype
      · refine (kept_stream ?_).mpr ?_
        · exact htype
        · show (out.accepted ++ (out.write rets buf.held).accepted).flatten ++ _ = _
          rw [List.flatten_append, hall hlt, List.append_assoc]
          exact hsent herrors

/-- `on_can_write` where messages are sent: every one that it comes to is accepted. -/
theorem sent_flush_packet {out : NwOut} (htype : out.sockType ≠ .stream) {bufs : List NwBuf}
    {rets : List WriteRet} (hsound : out.SoundFlush bufs rets)
    (h : NwOut.Sent { out with bufs := bufs }) : (out.flush bufs rets).Sent := by
  induction bufs generalizing out rets with
  | nil => exact h
  | cons buf bufs ih =>
    obtain ⟨hdata, htaken, hrest⟩ := hsound
    have hlen := soundData_packet htype hdata
    have hwrite := write_packet htype rets buf.held
    have hsent (herrors : out.errors = []) :
        out.accepted ++ (buf.held :: bufs.map NwBuf.held) = out.given :=
      (kept_packet (by exact htype)).mp (h herrors)
    obtain ⟨-, hret, haccepted⟩ | ⟨hnot, -⟩ := nwWritePacket_answer hlen out.errno rets
    · rw [← hwrite] at hret haccepted
      have hge : ¬sizeT (out.write rets buf.held).ret < buf.bufSize := by
        rw [hret, ← intOf_eq hlen, sizeT_intOf hlen]
        exact lt_irrefl _
      unfold flush
      dsimp only
      rw [if_neg hge]
      refine ih ?_ (hrest hge) fun herrors => ?_
      · exact htype
      · refine (kept_packet ?_).mpr ?_
        · exact htype
        · show out.accepted ++ (out.write rets buf.held).accepted ++ _ = _
          rw [haccepted, List.append_assoc]
          exact hsent herrors
    · obtain ⟨n, hn⟩ := htaken htype
      exact absurd hn (hnot n)

theorem sent_flush {out : NwOut} {rets : List WriteRet} (hsound : out.SoundFlush out.bufs rets)
    (h : out.Sent) : (out.flush out.bufs rets).Sent := by
  by_cases htype : out.sockType = .stream
  · exact sent_flush_stream htype hsound h
  · exact sent_flush_packet htype hsound h

theorem send_stream {out : NwOut} (htype : out.sockType = .stream) (hopen : out.isOpen = true)
    (data : List UInt8) (rets : List WriteRet) (budget : ℕ) :
    out.send data rets budget =
      if 0 < out.bufs.length then (out.give data).keep budget data
      else
        let w := (out.give data).write rets data
        let after := (out.give data).wrote w
        if sizeT w.ret < data.length then
          if w.errno = .again then after.keep budget (data.drop (sizeT w.ret))
          else after.onError ("write error: " ++ w.errno.strerror)
        else after := by
  have hgive : (out.give data).sockType = .stream := htype
  unfold send
  rw [if_neg (ne_true_of_eq_false · hopen)]
  simp only [hgive]
  rfl

/-- `nw_ses_send` of a stream's data. -/
theorem sent_send_stream {out : NwOut} (htype : out.sockType = .stream) (hopen : out.isOpen = true)
    {data : List UInt8} {rets : List WriteRet} (budget : ℕ)
    (hsound : out.bufs = [] → out.SoundData rets data) (h : out.Sent) :
    (out.send data rets budget).Sent := by
  have hsent (herrors : out.errors = []) := (kept_stream htype).mp (h herrors)
  have hgiven : (out.give data).given.flatten = out.given.flatten ++ data := by
    show (out.given ++ [data]).flatten = _
    rw [List.flatten_append, List.flatten_singleton]
  rw [send_stream htype hopen]
  by_cases hbufs : 0 < out.bufs.length
  · rw [if_pos hbufs]
    refine @sent_keep (out.give data) htype budget data fun herrors => ?_
    rw [hgiven, ← hsent herrors]
    rfl
  · rw [if_neg hbufs]
    have hnil : out.bufs = [] := List.length_eq_zero_iff.mp (by omega)
    have hgone (herrors : out.errors = []) : out.accepted.flatten = out.given.flatten := by
      have := hsent herrors
      rwa [hnil, List.flatMap_nil, List.append_nil] at this
    obtain ⟨hpart, hall⟩ := @write_stream (out.give data) htype rets data (hsound hnil)
    dsimp only
    by_cases hlt : sizeT ((out.give data).write rets data).ret < data.length
    · rw [if_pos hlt]
      split_ifs with hagain
      · refine sent_keep (by exact htype) budget fun herrors => ?_
        show (out.accepted ++ ((out.give data).write rets data).accepted).flatten ++
          out.bufs.flatMap NwBuf.held ++ _ = (out.give data).given.flatten
        rw [hgiven, hnil, List.flatMap_nil, List.append_nil, List.flatten_append, List.append_assoc,
          hpart hlt, hgone herrors]
      · exact sent_onError _ _
    · rw [if_neg hlt]
      intro herrors
      refine (kept_stream (by exact htype)).mpr ?_
      show (out.accepted ++ ((out.give data).write rets data).accepted).flatten ++
        out.bufs.flatMap NwBuf.held = (out.give data).given.flatten
      rw [hgiven, hnil, List.flatMap_nil, List.append_nil, List.flatten_append, hall hlt,
        hgone herrors]

/-- `nw_ses_send` of a message. -/
theorem sent_send_packet {out : NwOut} (htype : out.sockType ≠ .stream) (hopen : out.isOpen = true)
    {data : List UInt8} {rets : List WriteRet} {budget : ℕ} (hlen : data.length < 2 ^ 31)
    (hroom : data = [] → out.bufs ≠ [] ∨ answer rets = .again → out.HasRoom budget) (h : out.Sent) :
    (out.send data rets budget).Sent := by
  have hsent (herrors : out.errors = []) := (kept_packet htype).mp (h herrors)
  unfold send
  rw [if_neg (ne_true_of_eq_false · hopen)]
  dsimp only
  by_cases hbufs : 0 < (out.give data).bufs.length
  · rw [if_pos hbufs]
    have hwait (message : String) : ((out.give data).append budget data message).Sent := by
      refine @sent_append (out.give data) htype budget data
        (fun hdata => hroom hdata (.inl ?_)) message fun herrors => ?_
      · exact List.length_pos_iff.mp hbufs
      · show _ = out.given ++ [data]
        rw [← hsent herrors]
        rfl
    split
    · next hstream => exact absurd hstream htype
    · exact hwait _
    · exact hwait _
  · rw [if_neg hbufs]
    have hnil : out.bufs = [] := List.length_eq_zero_iff.mp (Nat.eq_zero_of_not_pos hbufs)
    have hgone (herrors : out.errors = []) : out.accepted = out.given := by
      have := hsent herrors
      rwa [hnil, List.map_nil, List.append_nil] at this
    have hall {after : NwOut} (hafter : after.sockType = out.sockType) (hgiven : after.given = out.given ++ [data])
        (haccepted : after.accepted = out.accepted ++ [data]) (hlist : after.bufs = out.bufs)
        (herrors : after.errors = out.errors) : after.Sent := fun hnone => by
      rw [kept_packet (hafter ▸ htype), hgiven, haccepted, hlist, hnil, List.map_nil,
        List.append_nil, hgone (herrors ▸ hnone)]
    split
    · next hstream => exact absurd hstream htype
    · split
      · exact hall rfl rfl rfl rfl rfl
      · exact sent_onError _ _
    · have hwrite := @write_packet (out.give data) htype rets data
      obtain ⟨-, hret, haccepted⟩ | ⟨-, hret, haccepted, hagain⟩ :=
        nwWritePacket_answer hlen (out.give data).errno rets
      · rw [← hwrite] at hret haccepted
        rw [if_neg (by rw [hret]; exact not_lt.mpr (Int.natCast_nonneg _))]
        refine hall rfl rfl ?_ rfl rfl
        show out.accepted ++ _ = _
        rw [haccepted]
      · rw [← hwrite] at hret haccepted hagain
        rw [if_pos (by rw [hret]; decide)]
        split_ifs with herrno
        · refine sent_append ?_ ?_ _ fun herrors => ?_
          · exact htype
          · exact fun hdata => hroom hdata (.inr (hagain herrno))
          show out.accepted ++ _ ++ out.bufs.map NwBuf.held ++ _ = out.given ++ _
          rw [haccepted, List.append_nil, hsent herrors]
        · exact sent_onError _ _

/-- One step keeps what was sent, if it is sound. -/
theorem sent_step {out : NwOut} {e : Event} (hsound : out.SoundEvent e) (h : out.Sent) :
    (out.step e).Sent := by
  cases e with
  | send data rets budget =>
    obtain ⟨hdata, hroom⟩ := hsound
    show (out.send data rets budget).Sent
    by_cases hopen : out.isOpen = true
    · by_cases htype : out.sockType = .stream
      · exact sent_send_stream htype hopen budget (fun hnil => hdata (.inl hnil)) h
      · exact sent_send_packet htype hopen (soundData_packet htype (hdata (.inr htype)))
          (hroom htype) h
    · rw [send, if_pos (Bool.eq_false_iff.mpr hopen)]
      exact h
  | canWrite rets =>
    show (out.onCanWrite rets).Sent
    unfold onCanWrite
    split_ifs with hopen
    · exact h
    · exact sent_flush hsound h

/-- Over every run of sound events. -/
theorem Reached.sent {sockType : SockType} {size limit : ℕ} {out : NwOut}
    (hreached : Reached sockType size limit SoundEvent out) : out.Sent := by
  induction hreached with
  | start =>
    intro _
    cases sockType <;> rfl
  | step hout hok ih => exact sent_step hok ih

/-- The send path neither loses, repeats nor reorders: unless `on_error` was called, what the socket
accepted and then what waits is what `nw_ses_send` was given. -/
theorem kept_of_sound {sockType : SockType} {size limit : ℕ} {out : NwOut}
    (hreached : Reached sockType size limit SoundEvent out) (herrors : out.errors = []) : out.Kept :=
  hreached.sent herrors

/-- A stream takes one byte, then two more, and the list is used up. -/
theorem kept_of_sound_stream :
    let out := ((start .stream 2 0).step (.send [7, 8, 9] [.accept 1, .again] 1)).step
      (.canWrite [.intr, .accept 1, .accept 1])
    out.errors = [] ∧ out.accepted.flatten ++ out.bufs.flatMap NwBuf.held = [7, 8, 9] := by
  have hfirst : Reached .stream 2 0 SoundEvent
      ((start .stream 2 0).step (.send [7, 8, 9] [.accept 1, .again] 1)) := by
    refine .step .start ⟨fun _ => .inl ?_, fun h => absurd rfl h⟩
    show 1 < 2 ^ 31
    decide
  have hsecond := Reached.step (e := .canWrite [.intr, .accept 1, .accept 1]) hfirst
    ⟨.inl (by show 2 < 2 ^ 31; decide), fun h => absurd rfl h, fun _ => trivial⟩
  exact ⟨by decide, (kept_stream rfl).mp (kept_of_sound hsecond (by decide))⟩

/-- A message that waits is taken from the list though the socket does not accept it: the result
`-1` is compared as a `size_t`. -/
theorem not_kept_of_again : ∃ out, Reached .seqpacket 4 0 (fun _ _ => True) out ∧ out.errors = [] ∧
    ¬out.Kept := by
  have hfirst : Reached .seqpacket 4 0 (fun _ _ => True)
      ((start .seqpacket 4 0).step (.send [7] [.again] 1)) := .step .start trivial
  have hsecond : Reached .seqpacket 4 0 (fun _ _ => True)
      (((start .seqpacket 4 0).step (.send [7] [.again] 1)).step (.canWrite [.again])) :=
    .step hfirst trivial
  refine ⟨_, hsecond, by decide, ?_⟩
  rw [kept_packet (by decide)]
  decide

end NwOut

end ViabtcExchange
