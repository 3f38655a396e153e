import ViabtcExchange.Lib.Framing
import ViabtcExchange.NwBuf

/-!
# Reading from a session

`on_can_read` of `nw_ses.c`, for the three types of socket. What the system calls return is given:
the list of what is received until `EAGAIN`. A package is looked for in what has been received by
`decode_pkg`, which may change it in place, and handed to `on_recv_pkg`, which sees the memory from
the package on and a size, and may close the session.
-/

namespace ViabtcExchange

inductive SockType where
  | stream
  | dgram
  | seqpacket
deriving DecidableEq, Repr

inductive SesType where
  | common
  | client
  | server
deriving DecidableEq, Repr

/-- What `decode_pkg` leaves: its return value, and the bytes it was called on. -/
structure Decoded (σ : Type) where
  privdata : σ
  ret : ℤ
  data : List UInt8

/-- The callbacks on packages of `nw_svr_type` and `nw_clt_type`, over the data of the session. -/
structure PkgType (σ : Type) where
  decodePkg : σ → List UInt8 → Decoded σ
  /-- `false` when the session has been closed. -/
  onRecvPkg : σ → List UInt8 → ℕ → σ × Bool
  ret_le : ∀ s data, (decodePkg s data).ret ≤ data.length
  length_eq : ∀ s data, (decodePkg s data).data.length = data.length

/-- What `read`, `recvfrom` or `recvmsg` returns. No bytes stand for the return value 0. -/
inductive ReadRet where
  /-- Bytes, and if a descriptor came with them. -/
  | bytes (data : List UInt8) (rights : Bool)
  | intr
  | error (message : String)
deriving DecidableEq, Repr

/-- A call of `on_recv_pkg`, and beside it the bytes received that `decode_pkg` was called on. -/
structure RecvCall where
  received : List UInt8
  data : List UInt8
  size : ℕ
deriving DecidableEq, Repr

structure NwSes (σ : Type) where
  sockType : SockType
  sesType : SesType
  /-- `sockfd` is not -1. -/
  isOpen : Bool
  readBuf : Option NwBuf
  privdata : σ
  /-- The calls of `on_recv_pkg` made. -/
  calls : List RecvCall
  /-- The texts `on_error` was called with. -/
  errors : List String

/-- An event: the memory `nw_buf_alloc` would give, and what is received until `EAGAIN`. -/
structure Wake where
  memory : Option (List UInt8)
  reads : List ReadRet

namespace NwSes

variable {σ : Type}

/-- A session that has just begun. -/
def start (sockType : SockType) (sesType : SesType) (privdata : σ) : NwSes σ :=
  ⟨sockType, sesType, true, none, privdata, [], []⟩

def close (ses : NwSes σ) : NwSes σ := { ses with isOpen := false, readBuf := none }

/-- `on_error` of `nw_svr.c` and `nw_clt.c`. -/
def onError (ses : NwSes σ) (message : String) : NwSes σ :=
  let ses := { ses with errors := ses.errors ++ [message] }
  match ses.sesType with
  | .common => ses.close
  | .client => if ses.sockType = .dgram then ses else ses.close
  | .server => ses

/-- `on_close` of `nw_svr.c` and `nw_clt.c`. -/
def onClose (ses : NwSes σ) : NwSes σ :=
  match ses.sesType with
  | .common | .client => ses.close
  | .server => ses

/-- Call `on_recv_pkg`. -/
def recvPkg (type : PkgType σ) (ses : NwSes σ) (received data : List UInt8) (size : ℕ) :
    NwSes σ × Bool :=
  match type.onRecvPkg ses.privdata data size with
  | (privdata, more) =>
    let ses := { ses with privdata := privdata, calls := ses.calls ++ [⟨received, data, size⟩] }
    (if more then ses else ses.close, more)

/-- The inner loop over a stream. No buffer is left when `on_can_read` returns in it. -/
def decodeLoop (type : PkgType σ) (ses : NwSes σ) (buf : NwBuf) : NwSes σ × Option NwBuf :=
  if buf.held = [] then (ses, some buf)
  else
    let decoded := type.decodePkg ses.privdata buf.held
    let ses' := { ses with privdata := decoded.privdata }
    let buf' := { buf with held := decoded.data }
    if decoded.ret < 0 then
      (onError { ses' with readBuf := some buf' } ("decode msg error: " ++ toString decoded.ret), none)
    else if 0 < decoded.ret then
      match recvPkg type ses' buf.held (decoded.data ++ buf.spare) decoded.ret.toNat with
      | (ses'', true) => decodeLoop type ses'' (buf'.advance decoded.ret.toNat)
      | (ses'', false) => (ses'', none)
    else if buf'.shift.wpos = buf'.shift.size then
      (onError { ses' with readBuf := some buf'.shift } "decode msg error", none)
    else (ses', some buf'.shift)
termination_by buf.held.length
decreasing_by
  have hlen := type.length_eq ses.privdata buf.held
  have hle := type.ret_le ses.privdata buf.held
  simp only [NwBuf.advance, List.length_drop]
  grind

/-- `SOCK_STREAM`. -/
def readStream (type : PkgType σ) (ses : NwSes σ) (buf : NwBuf) : List ReadRet → NwSes σ
  | [] => { ses with readBuf := if buf.bufSize = 0 then none else some buf }
  | .intr :: reads => readStream type ses buf reads
  | .error message :: _ => onError { ses with readBuf := some buf } ("read error: " ++ message)
  | .bytes data _ :: reads =>
    if data = [] then onClose { ses with readBuf := some buf }
    else
      match decodeLoop type ses (buf.write data).1 with
      | (ses', some buf') => readStream type ses' buf'.shift reads
      | (ses', none) => ses'

/-- `SOCK_DGRAM` and `SOCK_SEQPACKET`, where `memory` is the buffer, its positions being 0: a packet
is put at its beginning, as much of it as there is room for. A `SOCK_SEQPACKET` peer closes with an
empty packet, and with a descriptor no package is taken. -/
def readPackets (type : PkgType σ) (ses : NwSes σ) (memory : List UInt8) : List ReadRet → NwSes σ
  | [] => { ses with readBuf := none }
  | .intr :: reads => readPackets type ses memory reads
  | .error message :: _ =>
    onError { ses with readBuf := some (.alloc memory) }
      ((if ses.sockType = .dgram then "recvfrom error: " else "recvmsg error: ") ++ message)
  | .bytes packet rights :: reads =>
    let packet := packet.take memory.length
    let memory := packet ++ memory.drop packet.length
    if ses.sockType = .seqpacket ∧ packet = [] then
      onClose { ses with readBuf := some (.alloc memory) }
    else if ses.sockType = .seqpacket ∧ rights = true then readPackets type ses memory reads
    else
      let decoded := type.decodePkg ses.privdata packet
      let ses' := { ses with privdata := decoded.privdata }
      let memory := decoded.data ++ memory.drop decoded.data.length
      if decoded.ret < 0 then
        onError { ses' with readBuf := some (.alloc memory) }
          ("decode msg error: " ++ toString decoded.ret)
      else
        match recvPkg type ses' packet memory decoded.ret.toNat with
        | (ses'', true) => readPackets type ses'' memory reads
        | (ses'', false) => ses''

/-- The buffer `on_can_read` begins with. -/
def bufOr (ses : NwSes σ) (memory : Option (List UInt8)) : Option NwBuf :=
  match ses.readBuf with
  | some buf => some buf
  | none => memory.map NwBuf.alloc

def onCanRead (type : PkgType σ) (ses : NwSes σ) (wake : Wake) : NwSes σ :=
  if ses.isOpen = false then ses
  else
    match ses.bufOr wake.memory with
    | none => ses.onError "no recv buf"
    | some buf =>
      match ses.sockType with
      | .stream => readStream type ses buf wake.reads
      | .dgram | .seqpacket => readPackets type ses buf.memory wake.reads

/-- One event after the other. -/
def readAll (type : PkgType σ) (ses : NwSes σ) (wakes : List Wake) : NwSes σ :=
  wakes.foldl (onCanRead type) ses

@[simp] theorem calls_onError (ses : NwSes σ) (message : String) :
    (ses.onError message).calls = ses.calls := by
  unfold onError
  cases ses.sesType with
  | common => rfl
  | client =>
    dsimp only
    split_ifs <;> rfl
  | server => rfl

@[simp] theorem calls_onClose (ses : NwSes σ) : ses.onClose.calls = ses.calls := by
  unfold onClose
  cases ses.sesType <;> rfl

theorem calls_recvPkg (type : PkgType σ) (ses : NwSes σ) (received data : List UInt8) (size : ℕ) :
    (recvPkg type ses received data size).1.calls = ses.calls ++ [⟨received, data, size⟩] := by
  unfold recvPkg
  dsimp only
  split_ifs <;> rfl

theorem sockType_recvPkg (type : PkgType σ) (ses : NwSes σ) (received data : List UInt8)
    (size : ℕ) :
    (recvPkg type ses received data size).1.sockType = ses.sockType := by
  unfold recvPkg
  dsimp only
  split_ifs <;> rfl

/-- A package has been found. -/
theorem decodeLoop_of_pos {type : PkgType σ} {ses : NwSes σ} {buf : NwBuf} (hnil : buf.held ≠ [])
    (hpos : 0 < (type.decodePkg ses.privdata buf.held).ret) :
    decodeLoop type ses buf =
      match recvPkg type { ses with privdata := (type.decodePkg ses.privdata buf.held).privdata }
        buf.held ((type.decodePkg ses.privdata buf.held).data ++ buf.spare)
        (type.decodePkg ses.privdata buf.held).ret.toNat with
      | (ses', true) => decodeLoop type ses'
          ({ buf with held := (type.decodePkg ses.privdata buf.held).data }.advance
            (type.decodePkg ses.privdata buf.held).ret.toNat)
      | (ses', false) => (ses', none) := by
  rw [decodeLoop, if_neg hnil, if_neg (not_lt.mpr hpos.le), if_pos hpos]

/-- Where there is no package, nothing is called. -/
theorem calls_decodeLoop_of_nonpos {type : PkgType σ} {ses : NwSes σ} {buf : NwBuf}
    (hret : (type.decodePkg ses.privdata buf.held).ret ≤ 0) :
    (decodeLoop type ses buf).1.calls = ses.calls := by
  rw [decodeLoop]
  by_cases hnil : buf.held = []
  · rw [if_pos hnil]
  · rw [if_neg hnil]
    dsimp only
    rw [if_neg (not_lt.mpr hret)]
    split_ifs with hneg hfull
    · rw [calls_onError]
    · rw [calls_onError]
    · rfl

/-- What a session still holds of what it has received. -/
def held (ses : NwSes σ) : List UInt8 :=
  match ses.readBuf with
  | none => []
  | some buf => buf.held

/-- Every event after a session was closed finds it closed. -/
theorem readAll_of_closed {type : PkgType σ} {ses : NwSes σ} (wakes : List Wake)
    (hclosed : ses.isOpen = false) : readAll type ses wakes = ses := by
  induction wakes with
  | nil => rfl
  | cons wake wakes ih =>
    rw [readAll, List.foldl_cons, onCanRead, if_pos hclosed]
    exact ih

/-! ## Reads of a stream -/

/-- Every read brings something, and no more than there is room for. -/
def FitsReads (type : PkgType σ) : NwSes σ → NwBuf → List ReadRet → Prop
  | _, _, [] => True
  | ses, buf, .intr :: reads => FitsReads type ses buf reads
  | _, _, .error _ :: _ => False
  | ses, buf, .bytes data _ :: reads =>
    data ≠ [] ∧ data.length ≤ buf.avail ∧
      ∀ ses' buf', decodeLoop type ses (buf.write data).1 = (ses', some buf') →
        FitsReads type ses' buf'.shift reads

/-- The same of every event while the session is open, with buffers of one size at hand. -/
def Fits (type : PkgType σ) (size : ℕ) : NwSes σ → List Wake → Prop
  | _, [] => True
  | ses, wake :: wakes =>
    (ses.isOpen = true → (∃ memory, wake.memory = some memory ∧ memory.length = size) ∧
      ∀ buf, ses.bufOr wake.memory = some buf → FitsReads type ses buf wake.reads) ∧
    Fits type size (onCanRead type ses wake) wakes

end NwSes

/-- The bytes a read brings. -/
def ReadRet.data : ReadRet → List UInt8
  | .bytes data _ => data
  | .intr => []
  | .error _ => []

def Wake.data (wake : Wake) : List UInt8 := wake.reads.flatMap ReadRet.data

/-! ## Items in blocks -/

section Blocks

variable {σ ι τ : Type}

/-- The callbacks speak a language of items, each in a block of bytes: of a part of a block they
want more and change nothing in it, of a whole one they take it and hand it over. `Inv` ties the
data of the session to a state of the items handed over, `handle` is what one item does to that, and
`Shows` says what `on_recv_pkg` sees of an item. -/
structure PkgType.Speaks (type : PkgType σ) (Ok : ι → Prop) (encode : ι → List UInt8)
    (Shows : ι → List UInt8 → Prop) (Inv : τ → σ → Prop) (handle : τ → ι → τ × Bool) : Prop where
  nonempty : ∀ i, Ok i → encode i ≠ []
  part : ∀ t s i data, Ok i → Inv t s → data ≠ [] → data <+: encode i →
    data.length < (encode i).length → (type.decodePkg s data).ret = 0 ∧
      (type.decodePkg s data).data = data ∧ Inv t (type.decodePkg s data).privdata
  whole : ∀ t s i rest, Ok i → Inv t s →
    (type.decodePkg s (encode i ++ rest)).ret = (encode i).length ∧
      ∃ data, (type.decodePkg s (encode i ++ rest)).data = data ++ rest ∧
        data.length = (encode i).length ∧ ∀ after, Shows i (data ++ after) ∧
          (type.onRecvPkg (type.decodePkg s (encode i ++ rest)).privdata (data ++ after)
            (encode i).length).2 = (handle t i).2 ∧
          Inv (handle t i).1 (type.onRecvPkg (type.decodePkg s (encode i ++ rest)).privdata
            (data ++ after) (encode i).length).1

/-- The session after items have been handed over, and nothing else happened. -/
structure NwSes.After (Shows : ι → List UInt8 → Prop) (Inv : τ → σ → Prop) (ses : NwSes σ)
    (items : List ι) (t : τ) (ses' : NwSes σ) : Prop where
  inv : Inv t ses'.privdata
  errors : ses'.errors = ses.errors
  sockType : ses'.sockType = ses.sockType
  calls : ∃ calls, ses'.calls = ses.calls ++ calls ∧
    List.Forall₂ (fun i call => Shows i call.data) items calls

variable {type : PkgType σ} {Ok : ι → Prop} {encode : ι → List UInt8} {Shows : ι → List UInt8 → Prop}
  {Inv : τ → σ → Prop} {handle : τ → ι → τ × Bool} {ses ses' : NwSes σ} {buf : NwBuf} {t : τ} {i : ι}

theorem NwSes.After.trans {ses'' : NwSes σ} {items later : List ι} {t' : τ}
    (h : ses.After Shows Inv items t ses') (h' : ses'.After Shows Inv later t' ses'') :
    ses.After Shows Inv (items ++ later) t' ses'' := by
  obtain ⟨calls, hcalls, hshows⟩ := h.calls
  obtain ⟨calls', hcalls', hshows'⟩ := h'.calls
  refine ⟨h'.inv, h'.errors.trans h.errors, h'.sockType.trans h.sockType, calls ++ calls', ?_,
    List.rel_append hshows hshows'⟩
  rw [hcalls', hcalls, List.append_assoc]

namespace PkgType.Speaks

/-- What a call of `on_recv_pkg` leaves, with what the callback did. -/
theorem recvPkg_after (ses : NwSes σ) (received : List UInt8) {data : List UInt8} {size : ℕ}
    (hshows : Shows i data) (hmore : (type.onRecvPkg ses.privdata data size).2 = (handle t i).2)
    (hinv : Inv (handle t i).1 (type.onRecvPkg ses.privdata data size).1) :
    ∃ ses', NwSes.recvPkg type ses received data size = (ses', (handle t i).2) ∧
      ses.After Shows Inv [i] (handle t i).1 ses' ∧
      ses'.isOpen = (ses.isOpen && (handle t i).2) := by
  unfold NwSes.recvPkg
  dsimp only
  rw [hmore]
  refine ⟨_, rfl, ?_, ?_⟩
  · cases (handle t i).2 with
    | true => exact ⟨hinv, rfl, rfl, _, rfl, .cons hshows .nil⟩
    | false => exact ⟨hinv, rfl, rfl, _, rfl, .cons hshows .nil⟩
  · cases (handle t i).2 with
    | true => exact (Bool.and_true _).symm
    | false => exact (Bool.and_false _).symm

/-- One block is taken off the buffer. -/
theorem decodeLoop_block (h : type.Speaks Ok encode Shows Inv handle) (hok : Ok i)
    (hinv : Inv t ses.privdata) {rest : List UInt8} (hheld : buf.held = encode i ++ rest) :
    ∃ ses', ses.After Shows Inv [i] (handle t i).1 ses' ∧
      ses'.isOpen = (ses.isOpen && (handle t i).2) ∧
      ((handle t i).2 = true → ∃ buf' : NwBuf, buf'.held = rest ∧ buf'.size = buf.size ∧
        NwSes.decodeLoop type ses buf = NwSes.decodeLoop type ses' buf') ∧
      ((handle t i).2 = false → NwSes.decodeLoop type ses buf = (ses', none)) := by
  obtain ⟨hret, data, hdata, hlen, hrecv⟩ := h.whole t ses.privdata i rest hok hinv
  obtain ⟨hshows, hmore, hinv'⟩ := hrecv (rest ++ buf.spare)
  have hpos : 0 < (encode i).length := List.length_pos_iff.mpr (h.nonempty i hok)
  have hne : buf.held ≠ [] := by
    rw [hheld]
    exact List.append_ne_nil_of_left_ne_nil (h.nonempty i hok) rest
  rw [← hheld] at hret hdata hmore hinv'
  obtain ⟨ses', htaken, hafter, hopen⟩ := recvPkg_after
    { ses with privdata := (type.decodePkg ses.privdata buf.held).privdata } buf.held
      hshows hmore hinv'
  have hloop : NwSes.decodeLoop type ses buf = match (ses', (handle t i).2) with
      | (ses'', true) =>
        NwSes.decodeLoop type ses'' ({ buf with held := data ++ rest }.advance (encode i).length)
      | (ses'', false) => (ses'', none) := by
    rw [NwSes.decodeLoop_of_pos hne (by omega), hret, hdata, Int.toNat_natCast, List.append_assoc,
      htaken]
  refine ⟨ses', ⟨hafter.inv, hafter.errors, hafter.sockType, hafter.calls⟩, hopen, fun hmore => ?_,
    fun hstop => ?_⟩
  · rw [hmore] at hloop
    refine ⟨_, ?_, ?_, hloop⟩
    · simp only [NwBuf.advance, ← hlen, List.drop_left]
    · have hlen' : (data ++ rest).length = buf.held.length := by
        rw [hheld, List.length_append, List.length_append, hlen]
      rw [NwBuf.size_advance _ (by simp only [List.length_append]; omega)]
      simp only [NwBuf.size, hlen']
  · rw [hstop] at hloop
    exact hloop

/-- All whole blocks are taken off the buffer, until the session is closed, and the part after them
stays in it. -/
theorem decodeLoop_blocks (h : type.Speaks Ok encode Shows Inv handle) {done rest : List ι}
    {tail : List UInt8} (hok : ∀ i ∈ done ++ rest, Ok i)
    (hsize : ∀ i ∈ rest, (encode i).length ≤ buf.size) (hinv : Inv t ses.privdata)
    (hheld : buf.held = done.flatMap encode ++ tail) (hbegun : Begun encode rest tail) :
    ∃ ses', ses.After Shows Inv (handled handle t done) (handleAll handle t done).1 ses' ∧
      ses'.isOpen = (ses.isOpen && (handleAll handle t done).2) ∧
      ((handleAll handle t done).2 = true → ∃ buf' : NwBuf, buf'.held = tail ∧
        buf'.size = buf.size ∧ NwSes.decodeLoop type ses buf = (ses', some buf')) ∧
      ((handleAll handle t done).2 = false → NwSes.decodeLoop type ses buf = (ses', none)) := by
  induction done generalizing ses buf t with
  | nil =>
    rw [List.flatMap_nil, List.nil_append] at hheld
    rcases hbegun with rfl | ⟨i, later, rfl, hprefix, hshort⟩
    · refine ⟨ses, ⟨hinv, rfl, rfl, [], (List.append_nil _).symm, .nil⟩, (Bool.and_true _).symm,
        fun _ => ⟨buf, hheld, rfl, ?_⟩, nofun⟩
      rw [NwSes.decodeLoop, if_pos hheld]
    · by_cases hnil : tail = []
      · subst hnil
        refine ⟨ses, ⟨hinv, rfl, rfl, [], (List.append_nil _).symm, .nil⟩, (Bool.and_true _).symm,
          fun _ => ⟨buf, hheld, rfl, ?_⟩, nofun⟩
        rw [NwSes.decodeLoop, if_pos hheld]
      · obtain ⟨hret, hdata, hinv'⟩ := h.part t ses.privdata i tail (hok i (by simp)) hinv hnil
          hprefix hshort
        have hfree : tail.length < buf.size := hshort.trans_le (hsize i (by simp))
        rw [← hheld] at hret hdata hinv' hfree
        have hsame : ({ buf with held := (type.decodePkg ses.privdata buf.held).data } : NwBuf) =
            buf := by rw [hdata]
        refine ⟨{ ses with privdata := (type.decodePkg ses.privdata buf.held).privdata },
          ⟨hinv', rfl, rfl, [], (List.append_nil _).symm, .nil⟩, (Bool.and_true _).symm,
          fun _ => ⟨buf.shift, by rw [NwBuf.held_shift, hheld], NwBuf.size_shift buf, ?_⟩,
          nofun⟩
        rw [NwSes.decodeLoop, if_neg (by rwa [hheld])]
        dsimp only
        rw [hret, hsame, if_neg (by decide), if_neg (by decide), NwBuf.wpos_shift,
          NwBuf.size_shift, if_neg (by omega)]
  | cons i done ih =>
    rw [List.flatMap_cons, List.append_assoc] at hheld
    obtain ⟨ses', hafter, hopen, hmore, hstop⟩ := h.decodeLoop_block (hok i (by simp)) hinv hheld
    cases hi : (handle t i).2 with
    | false =>
      rw [handled_cons_of_stop hi, handleAll_cons_of_stop hi]
      rw [hi] at hopen
      exact ⟨ses', hafter, hopen, nofun, fun _ => hstop hi⟩
    | true =>
      rw [hi, Bool.and_true] at hopen
      obtain ⟨buf', hheld', hsize', hloop⟩ := hmore hi
      obtain ⟨ses'', hafter', hopen', hmore', hstop'⟩ := ih
        (fun j hj => hok j (List.mem_cons_of_mem i hj))
          (fun j hj => by rw [hsize']; exact hsize j hj)
        hafter.inv hheld'
      rw [handled_cons_of_more hi, handleAll_cons_of_more hi, hloop]
      rw [hopen] at hopen'
      refine ⟨ses'', hafter.trans hafter', hopen', fun hm => ?_, hstop'⟩
      obtain ⟨buf'', hheld'', hsize'', hloop'⟩ := hmore' hm
      exact ⟨buf'', hheld'', hsize''.trans hsize', hloop'⟩

/-- Reads until `EAGAIN`: the blocks completed are handed over, and the part after them is held. -/
theorem readStream_blocks (h : type.Speaks Ok encode Shows Inv handle) {items : List ι}
    {reads : List ReadRet} {later : List UInt8} (hok : ∀ i ∈ items, Ok i)
    (hsize : ∀ i ∈ items, (encode i).length ≤ buf.size) (hopen : ses.isOpen = true)
    (hinv : Inv t ses.privdata) (hbegun : Begun encode items buf.held)
    (hbytes : buf.held ++ (reads.flatMap ReadRet.data ++ later) = items.flatMap encode)
    (hfits : NwSes.FitsReads type ses buf reads) :
    ∃ done rest, items = done ++ rest ∧
      ses.After Shows Inv (handled handle t done) (handleAll handle t done).1
        (NwSes.readStream type ses buf reads) ∧
      (NwSes.readStream type ses buf reads).isOpen = (handleAll handle t done).2 ∧
      ((handleAll handle t done).2 = true →
        (NwSes.readStream type ses buf reads).held ++ later = rest.flatMap encode ∧
        Begun encode rest (NwSes.readStream type ses buf reads).held ∧
        ∀ buf', (NwSes.readStream type ses buf reads).readBuf = some buf' →
          buf'.size = buf.size) := by
  induction reads generalizing ses buf t items with
  | nil =>
    have hheld : (NwSes.readStream type ses buf []).held = buf.held := by
      unfold NwSes.readStream NwSes.held NwBuf.bufSize
      by_cases hnil : buf.held.length = 0
      · simp only [if_pos hnil]
        exact (List.length_eq_zero_iff.mp hnil).symm
      · simp only [if_neg hnil]
    refine ⟨[], items, rfl, ⟨hinv, rfl, rfl, [], (List.append_nil _).symm, .nil⟩, hopen,
      fun _ => ?_⟩
    rw [hheld]
    refine ⟨hbytes, hbegun, fun buf' hbuf' => ?_⟩
    unfold NwSes.readStream at hbuf'
    dsimp only at hbuf'
    split_ifs at hbuf'
    rw [Option.some.inj hbuf']
  | cons read reads ih =>
    cases read with
    | intr => exact ih hok hsize hopen hinv hbegun hbytes hfits
    | error message => exact hfits.elim
    | bytes data rights =>
      obtain ⟨hne, hle, hnext⟩ := hfits
      have hheld : (buf.write data).1.held = buf.held ++ data := by rw [NwBuf.write_of_le hle]
      have hfull := NwBuf.size_write buf data
      rw [List.flatMap_cons, ReadRet.data,
        List.append_assoc, ← List.append_assoc, ← hheld] at hbytes
      obtain ⟨done, rest, tail, rfl, hdone, hlater, htail⟩ := exists_blocks encode items _ _ hbytes
      obtain ⟨ses', hafter, hopen', hmore, hstop⟩ := h.decodeLoop_blocks hok
        (fun i hi => by rw [hfull]; exact hsize i (List.mem_append_right done hi)) hinv hdone htail
      rw [hopen, Bool.true_and] at hopen'
      rw [NwSes.readStream, if_neg hne]
      cases hall : (handleAll handle t done).2 with
      | false =>
        rw [hstop hall]
        exact ⟨done, rest, rfl, hafter, hopen', fun hm => absurd (hall.symm.trans hm) (by decide)⟩
      | true =>
        obtain ⟨buf', hheld', hsize', hloop⟩ := hmore hall
        rw [hloop]
        dsimp only
        have hsame : buf'.shift.size = buf.size := by rw [NwBuf.size_shift, hsize', hfull]
        obtain ⟨done', rest', rfl, hafter', hopen'', hmore'⟩ := ih
          (fun i hi => hok i (List.mem_append_right done hi))
          (fun i hi => by rw [hsame]; exact hsize i (List.mem_append_right done hi))
          (hopen'.trans hall) hafter.inv (by rwa [NwBuf.held_shift, hheld'])
          (by rwa [NwBuf.held_shift, hheld']) (hnext ses' buf' hloop)
        refine ⟨done ++ done', rest', (List.append_assoc done done' rest').symm, ?_, ?_, ?_⟩
        · rw [handled_append_of_more hall, handleAll_append_of_more hall]
          rw [handled_of_more hall] at hafter
          exact hafter.trans hafter'
        · rw [handleAll_append_of_more hall]
          exact hopen''
        · rw [handleAll_append_of_more hall]
          intro hm
          obtain ⟨hbytes', hbegun', hbuf'⟩ := hmore' hm
          exact ⟨hbytes', hbegun', fun b hb => (hbuf' b hb).trans hsame⟩

/-- **Items over a stream.** However the blocks of the items are cut into reads, the items are
handed over once each and in order, until the session is closed. -/
theorem readAll_blocks (h : type.Speaks Ok encode Shows Inv handle) {items : List ι} {size : ℕ}
    {wakes : List Wake} (hok : ∀ i ∈ items, Ok i) (hsize : ∀ i ∈ items, (encode i).length ≤ size)
    (hstream : ses.sockType = .stream) (hopen : ses.isOpen = true) (hinv : Inv t ses.privdata)
    (hbegun : Begun encode items ses.held)
    (hbuf : ∀ buf, ses.readBuf = some buf → buf.size = size)
    (hbytes : ses.held ++ wakes.flatMap Wake.data = items.flatMap encode)
    (hfits : NwSes.Fits type size ses wakes) :
    ses.After Shows Inv (handled handle t items) (handleAll handle t items).1
        (NwSes.readAll type ses wakes) ∧
      (NwSes.readAll type ses wakes).isOpen = (handleAll handle t items).2 := by
  induction wakes generalizing ses t items with
  | nil =>
    -- The part of a block that is held would be all of what is left.
    obtain rfl : items = [] := by
      rw [List.flatMap_nil, List.append_nil] at hbytes
      rcases hbegun with hnil | ⟨i, rest, rfl, -, hshort⟩
      · cases items with
        | nil => rfl
        | cons i rest =>
          rw [hnil, List.flatMap_cons] at hbytes
          exact absurd (List.append_eq_nil_iff.mp hbytes.symm).1 (h.nonempty i (hok i (by simp)))
      · rw [hbytes, List.flatMap_cons, List.length_append] at hshort
        omega
    exact ⟨⟨hinv, rfl, rfl, [], (List.append_nil _).symm, .nil⟩, hopen⟩
  | cons wake wakes ih =>
    obtain ⟨hwake, hfits'⟩ := hfits
    obtain ⟨⟨memory, hmemory, hlen⟩, hreads⟩ := hwake hopen
    obtain ⟨buf, hbufOr, hheld, hbufsize⟩ : ∃ buf, ses.bufOr wake.memory = some buf ∧
        buf.held = ses.held ∧ buf.size = size := by
      unfold NwSes.bufOr NwSes.held
      cases hread : ses.readBuf with
      | some buf => exact ⟨buf, rfl, rfl, hbuf buf hread⟩
      | none =>
        refine ⟨.alloc memory, by rw [hmemory]; rfl, rfl, ?_⟩
        simp only [NwBuf.alloc, NwBuf.size, List.length_nil, Nat.zero_add, hlen]
    have hstep : NwSes.onCanRead type ses wake = NwSes.readStream type ses buf wake.reads := by
      rw [NwSes.onCanRead, if_neg (by rw [hopen]; decide), hbufOr, hstream]
    rw [List.flatMap_cons, Wake.data, ← hheld] at hbytes
    obtain ⟨done, rest, rfl, hafter, hopen', hmore⟩ := h.readStream_blocks hok
      (fun i hi => by rw [hbufsize]; exact hsize i hi) hopen hinv (by rwa [hheld]) hbytes
      (hreads buf hbufOr)
    rw [NwSes.readAll, List.foldl_cons, ← NwSes.readAll]
    rw [← hstep] at hafter hopen' hmore
    cases hall : (handleAll handle t done).2 with
    | false =>
      rw [NwSes.readAll_of_closed wakes (hopen'.trans hall), handled_append_of_stop hall,
        handleAll_append_of_stop hall]
      exact ⟨hafter, hopen'⟩
    | true =>
      obtain ⟨hbytes', hbegun', hbuf'⟩ := hmore hall
      have hrest := ih (fun i hi => hok i (List.mem_append_right done hi))
        (fun i hi => hsize i (List.mem_append_right done hi)) (hafter.sockType.trans hstream)
        (hopen'.trans hall) hafter.inv hbegun' (fun b hb => (hbuf' b hb).trans hbufsize)
          hbytes' hfits'
      rw [handled_append_of_more hall, handleAll_append_of_more hall]
      rw [handled_of_more hall] at hafter
      exact ⟨hafter.trans hrest.1, hrest.2⟩

end PkgType.Speaks

end Blocks

end ViabtcExchange
