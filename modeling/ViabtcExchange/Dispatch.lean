import ViabtcExchange.Rpc

/-!
# Which packages are dispatched

The three loops of `on_can_read` treat the 0 of `decode_pkg` in two ways: over a stream it means
that more is to be read, and of a packet nothing is asked but that it is not negative. So a packet
that is too short goes to `on_recv_pkg` with size 0, where the memory still holds what was there
before it.
-/

namespace ViabtcExchange

variable (host : ByteOrder) (crc : List UInt8 → UInt32)

/-- The size of a package by its header. -/
def declaredSize (data : List UInt8) : ℕ :=
  36 + (RpcHead.load .little data).extSize.toNat + (RpcHead.load .little data).bodySize.toNat

/-- `on_recv_pkg` was called as it should be: with the size that `rpc_decode` returned for what has
been received, with all of the package by its header, and with the memory that `rpc_decode` left. -/
structure RecvCall.Checked (call : RecvCall) : Prop where
  positive : 0 < call.size
  decoded : (rpcDecode host crc call.received).1 = call.size
  whole : declaredSize call.received ≤ call.received.length
  data : (rpcDecode host crc call.received).2 <+: call.data

/-- A packet that `rpc_decode` refuses, or that is as long as its header says. -/
def WholePacket (packet : List UInt8) : Prop :=
  (rpcDecode host crc packet).1 < 0 ∨
    0 < (rpcDecode host crc packet).1 ∧ declaredSize packet ≤ packet.length

/-- What has been received over a stream, taken apart by `rpc_decode`, has all of each package it
accepts. -/
inductive WholePackages : List UInt8 → Prop
  | rest {data : List UInt8} : (rpcDecode host crc data).1 ≤ 0 → WholePackages data
  | next {data : List UInt8} : 0 < (rpcDecode host crc data).1 → declaredSize data ≤ data.length →
      WholePackages ((rpcDecode host crc data).2.drop (rpcDecode host crc data).1.toNat) →
      WholePackages data

section Runs

variable {σ : Type} (onRecv : σ → RpcParts → σ × Bool)

/-- The condition on what is read from a stream until `EAGAIN`. -/
def WholeReads : NwSes σ → NwBuf → List ReadRet → Prop
  | _, _, [] => True
  | ses, buf, .intr :: reads => WholeReads ses buf reads
  | _, _, .error _ :: _ => True
  | ses, buf, .bytes data _ :: reads => data ≠ [] →
    WholePackages host crc (buf.write data).1.held ∧
      ∀ ses' buf', NwSes.decodeLoop (rpcType host crc onRecv) ses (buf.write data).1 =
        (ses', some buf') → WholeReads ses' buf'.shift reads

/-- The condition on a packet, of which there is room for `size` bytes. -/
def WholeRead (sockType : SockType) (size : ℕ) : ReadRet → Prop
  | .bytes packet rights =>
    sockType = .seqpacket ∧ (packet.take size = [] ∨ rights = true) ∨
      WholePacket host crc (packet.take size)
  | .intr => True
  | .error _ => True

/-- The condition on all events. -/
def WholeRun : NwSes σ → List Wake → Prop
  | _, [] => True
  | ses, wake :: wakes =>
    (∀ buf, ses.bufOr wake.memory = some buf → match ses.sockType with
      | .stream => WholeReads host crc onRecv ses buf wake.reads
      | .dgram | .seqpacket =>
        ∀ read ∈ wake.reads, WholeRead host crc ses.sockType buf.memory.length read) ∧
    WholeRun (NwSes.onCanRead (rpcType host crc onRecv) ses wake) wakes

variable {host crc} {ses : NwSes σ}

/-- The call for a package that `rpc_decode` accepts and that is all there. -/
theorem recvPkg_checked {received : List UInt8} (after : List UInt8)
    (hpos : 0 < (rpcDecode host crc received).1) (hsize : declaredSize received ≤ received.length)
    (h : ∀ call ∈ ses.calls, call.Checked host crc) :
    ∀ call ∈ (NwSes.recvPkg (rpcType host crc onRecv) ses received
      ((rpcDecode host crc received).2 ++ after) (rpcDecode host crc received).1.toNat).1.calls,
      call.Checked host crc := by
  intro call hcall
  rw [NwSes.calls_recvPkg, List.mem_append, List.mem_singleton] at hcall
  rcases hcall with hcall | rfl
  · exact h call hcall
  · exact ⟨by simpa using hpos, (Int.toNat_of_nonneg hpos.le).symm, hsize, List.prefix_append _ _⟩

/-- The packages of a stream, until no more can be taken from what is held. -/
theorem decodeLoop_checked {buf : NwBuf} (hwhole : WholePackages host crc buf.held)
    (h : ∀ call ∈ ses.calls, call.Checked host crc) :
    ∀ call ∈ (NwSes.decodeLoop (rpcType host crc onRecv) ses buf).1.calls,
      call.Checked host crc := by
  generalize hheld : buf.held = held at hwhole
  induction hwhole generalizing ses buf with
  | @rest data hret =>
    subst hheld
    rwa [NwSes.calls_decodeLoop_of_nonpos hret]
  | @next data hpos hsize _ ih =>
    subst hheld
    have hnil : buf.held ≠ [] := by
      intro hnil
      rw [hnil, List.length_nil] at hsize
      unfold declaredSize at hsize
      omega
    have hchecked := recvPkg_checked onRecv buf.spare hpos hsize h
    rw [NwSes.decodeLoop_of_pos hnil hpos]
    simp only [decodePkg_rpcType]
    rcases hrecv : NwSes.recvPkg (rpcType host crc onRecv) ses buf.held
        ((rpcDecode host crc buf.held).2 ++ buf.spare)
        (rpcDecode host crc buf.held).1.toNat with ⟨ses', more⟩
    rw [hrecv] at hchecked
    cases more with
    | true => exact ih hchecked rfl
    | false => exact hchecked

theorem readStream_checked {buf : NwBuf} {reads : List ReadRet}
    (hwhole : WholeReads host crc onRecv ses buf reads)
    (h : ∀ call ∈ ses.calls, call.Checked host crc) :
    ∀ call ∈ (NwSes.readStream (rpcType host crc onRecv) ses buf reads).calls,
      call.Checked host crc := by
  induction reads generalizing ses buf with
  | nil => exact h
  | cons read reads ih =>
    cases read with
    | intr => exact ih hwhole h
    | error message =>
      rw [NwSes.readStream, NwSes.calls_onError]
      exact h
    | bytes data rights =>
      rw [NwSes.readStream]
      by_cases hnil : data = []
      · rw [if_pos hnil, NwSes.calls_onClose]
        exact h
      · obtain ⟨hpkgs, hnext⟩ := hwhole hnil
        have hloop := decodeLoop_checked onRecv hpkgs h
        rw [if_neg hnil]
        rcases hres : NwSes.decodeLoop (rpcType host crc onRecv) ses (buf.write data).1 with
          ⟨ses', _ | buf'⟩
        · rw [hres] at hloop
          exact hloop
        · rw [hres] at hloop
          exact ih (hnext ses' buf' hres) hloop

theorem readPackets_checked {memory : List UInt8} {reads : List ReadRet}
    (hwhole : ∀ read ∈ reads, WholeRead host crc ses.sockType memory.length read)
    (h : ∀ call ∈ ses.calls, call.Checked host crc) :
    ∀ call ∈ (NwSes.readPackets (rpcType host crc onRecv) ses memory reads).calls,
      call.Checked host crc := by
  induction reads generalizing ses memory with
  | nil => exact h
  | cons read reads ih =>
    have hrest : ∀ read ∈ reads, WholeRead host crc ses.sockType memory.length read :=
      fun read hread => hwhole read (List.mem_cons_of_mem _ hread)
    cases read with
    | intr => exact ih hrest h
    | error message =>
      rw [NwSes.readPackets, NwSes.calls_onError]
      exact h
    | bytes packet rights =>
      have hlen (data : List UInt8) (hdata : data.length = (packet.take memory.length).length) :
          (data ++ memory.drop data.length).length = memory.length := by
        rw [List.length_append, List.length_drop, hdata, List.length_take]
        omega
      rw [NwSes.readPackets]
      dsimp only
      by_cases hend : ses.sockType = .seqpacket ∧ packet.take memory.length = []
      · rw [if_pos hend, NwSes.calls_onClose]
        exact h
      by_cases hfd : ses.sockType = .seqpacket ∧ rights = true
      · rw [if_neg hend, if_pos hfd]
        exact ih (by rwa [hlen _ rfl]) h
      rw [if_neg hend, if_neg hfd]
      have hpacket : WholePacket host crc (packet.take memory.length) := by
        rcases hwhole _ List.mem_cons_self with ⟨hseq, hnil | hrights⟩ | hpacket
        · exact absurd ⟨hseq, hnil⟩ hend
        · exact absurd ⟨hseq, hrights⟩ hfd
        · exact hpacket
      rcases hpacket with hneg | ⟨hpos, hsize⟩
      · rw [if_pos (show ((rpcType host crc onRecv).decodePkg ses.privdata
          (packet.take memory.length)).ret < 0 from hneg), NwSes.calls_onError]
        exact h
      · rw [if_neg (show ¬((rpcType host crc onRecv).decodePkg ses.privdata
          (packet.take memory.length)).ret < 0 from not_lt.mpr hpos.le)]
        simp only [decodePkg_rpcType]
        generalize hmemory : (rpcDecode host crc (packet.take memory.length)).2 ++
          List.drop (rpcDecode host crc (packet.take memory.length)).2.length
            (packet.take memory.length ++ memory.drop (packet.take memory.length).length) = memory'
        have hsame : memory'.length = memory.length := by
          rw [← hmemory]
          simp only [List.length_append, List.length_drop, List.length_take, length_rpcDecode]
          omega
        have hchecked := recvPkg_checked onRecv (List.drop
          (rpcDecode host crc (packet.take memory.length)).2.length (packet.take memory.length ++
            memory.drop (packet.take memory.length).length)) hpos hsize h
        rw [hmemory] at hchecked
        have hsockType := NwSes.sockType_recvPkg (rpcType host crc onRecv) ses
          (packet.take memory.length) memory'
            (rpcDecode host crc (packet.take memory.length)).1.toNat
        rcases hrecv : NwSes.recvPkg (rpcType host crc onRecv) ses (packet.take memory.length) memory'
          (rpcDecode host crc (packet.take memory.length)).1.toNat with ⟨ses', more⟩
        rw [hrecv] at hchecked hsockType
        cases more with
        | true => exact ih (by rwa [hsame, hsockType]) hchecked
        | false => exact hchecked

theorem onCanRead_checked {wake : Wake}
    (hwhole : ∀ buf, ses.bufOr wake.memory = some buf → match ses.sockType with
      | .stream => WholeReads host crc onRecv ses buf wake.reads
      | .dgram | .seqpacket =>
        ∀ read ∈ wake.reads, WholeRead host crc ses.sockType buf.memory.length read)
    (h : ∀ call ∈ ses.calls, call.Checked host crc) :
    ∀ call ∈ (NwSes.onCanRead (rpcType host crc onRecv) ses wake).calls, call.Checked host crc := by
  rw [NwSes.onCanRead]
  by_cases hclosed : ses.isOpen = false
  · rwa [if_pos hclosed]
  · rw [if_neg hclosed]
    cases hbuf : ses.bufOr wake.memory with
    | none =>
      dsimp only
      rwa [NwSes.calls_onError]
    | some buf =>
      have hreads := hwhole buf hbuf
      dsimp only
      cases hsock : ses.sockType with
      | stream =>
        rw [hsock] at hreads
        exact readStream_checked onRecv hreads h
      | dgram =>
        rw [hsock] at hreads
        exact readPackets_checked onRecv (by rwa [hsock]) h
      | seqpacket =>
        rw [hsock] at hreads
        exact readPackets_checked onRecv (by rwa [hsock]) h

/-- **Only checked packages are dispatched**, in every run in which every packet is refused or as
long as its header says, and so is every package accepted from a stream. -/
theorem dispatched_checked {sockType : SockType} {sesType : SesType} {s : σ} {wakes : List Wake}
    (hwhole : WholeRun host crc onRecv (.start sockType sesType s) wakes) :
    ∀ call ∈ (NwSes.readAll (rpcType host crc onRecv) (.start sockType sesType s) wakes).calls,
      call.Checked host crc := by
  have hall : ∀ (wakes : List Wake) (ses : NwSes σ), WholeRun host crc onRecv ses wakes →
      (∀ call ∈ ses.calls, call.Checked host crc) →
      ∀ call ∈ (NwSes.readAll (rpcType host crc onRecv) ses wakes).calls,
        call.Checked host crc := by
    intro wakes
    induction wakes with
    | nil => exact fun ses _ h => h
    | cons wake wakes ih => exact fun ses hrun h => ih _ hrun.2 (onCanRead_checked onRecv hrun.1 h)
  exact hall wakes _ hwhole fun call hcall => absurd hcall List.not_mem_nil

end Runs

/-! ## Two datagrams -/

/-- One datagram that is a package. -/
theorem dispatched_checked_datagram :
    (NwSes.readAll exampleType (.start .dgram .server ())
      [⟨some (List.replicate 40 0), [.bytes exampleBytes false]⟩]).calls.map RecvCall.size = [36] ∧
    ∀ call ∈ (NwSes.readAll exampleType (.start .dgram .server ())
      [⟨some (List.replicate 40 0), [.bytes exampleBytes false]⟩]).calls,
      call.Checked .big fun _ => 0 := by
  refine ⟨by decide +kernel, dispatched_checked _ ⟨fun buf hbuf => ?_, trivial⟩⟩
  obtain rfl : NwBuf.alloc (List.replicate 40 0) = buf := Option.some.inj hbuf
  intro read hread
  obtain rfl := List.mem_singleton.mp hread
  exact .inr (.inr ⟨by decide +kernel, by decide +kernel⟩)

/-- An empty datagram after it: the package before is dispatched once more, with size 0. -/
theorem dispatched_again :
    (NwSes.readAll exampleType (.start .dgram .server ())
      [⟨some (List.replicate 40 0), [.bytes exampleBytes false, .bytes [] false]⟩]).calls.map
        (fun call => (call.received, call.size, RpcParts.ofMemory .big call.data)) =
      [(exampleBytes, 36, examplePkg.sent fun _ => 0), ([], 0, examplePkg.sent fun _ => 0)] ∧
    ¬∀ call ∈ (NwSes.readAll exampleType (.start .dgram .server ())
      [⟨some (List.replicate 40 0), [.bytes exampleBytes false, .bytes [] false]⟩]).calls,
      call.Checked .big fun _ => 0 := by
  refine ⟨by decide +kernel, fun hall => ?_⟩
  have hsizes : (NwSes.readAll exampleType (.start .dgram .server ())
      [⟨some (List.replicate 40 0), [.bytes exampleBytes false, .bytes [] false]⟩]).calls.map
        RecvCall.size = [36, 0] := by decide +kernel
  have hzero : 0 ∈ [36, 0] := by decide
  rw [← hsizes] at hzero
  obtain ⟨call, hcall, hsize⟩ := List.mem_map.mp hzero
  exact absurd (hall call hcall).positive (by omega)

end ViabtcExchange
