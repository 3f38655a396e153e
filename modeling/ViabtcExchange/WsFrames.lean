import ViabtcExchange.NwRead

/-!
# Websocket frames

`decode_pkg` and `on_recv_pkg` of `ut_ws_svr.c`. Once the connection is upgraded the client sends
frames: data frames, of which those up to one with `fin` make a message, and control frames in
between. The current frame lies in the data of the session, its payload in the read buffer, where it
is unmasked.
-/

namespace ViabtcExchange

/-! ## The server -/

/-- `struct ws_frame`. The payload is given by its offset from the package. -/
structure WsFrame where
  fin : UInt8
  opcode : UInt8
  payloadLen : ℕ
  payload : ℕ
deriving DecidableEq, Repr

/-- What frames change of `struct clt_info`, with what `on_message` changes elsewhere. -/
structure WsClt (σ : Type) where
  upgrade : Bool
  frame : WsFrame
  message : Option (List UInt8)
  owner : σ
  /-- The messages `on_message` was called with. -/
  messages : List (List UInt8)

/-- What `svr->type.on_message` leaves. -/
structure MessageRet (σ : Type) where
  owner : σ
  ret : ℤ
  /-- `ses->id` is not 0. -/
  isOpen : Bool

/-- What is not looked into: the messages, the reply to a ping, which may fail and close the
session, and the handshake. -/
structure WsType (σ : Type) where
  onMessage : σ → List UInt8 → MessageRet σ
  sendPong : σ → σ × Bool
  handshake : WsClt σ → List UInt8 → WsClt σ × Bool

/-- `is_good_opcode`. -/
def isGoodOpcode (opcode : UInt8) : Bool := [0x0, 0x1, 0x2, 0x8, 0x9, 0xa].contains opcode

/-- The bytes with the masks on, or off again. -/
def unmask (masks payload : List UInt8) : List UInt8 :=
  payload.mapIdx fun i b => b ^^^ masks.getD (i % 4) 0

namespace WsClt

variable {σ : Type}

/-- `decode_pkg` from the masks on, which are at `pkgSize`. -/
def decodePayload (clt : WsClt σ) (frame : WsFrame) (pkgSize payloadLen : ℕ) (data : List UInt8) :
    Decoded (WsClt σ) :=
  let masks := (data.drop pkgSize).take 4
  let payload := pkgSize + 4
  let clt := { clt with frame := { frame with payloadLen := payloadLen, payload := payload } }
  let pkgSize := (payload + payloadLen) % 2 ^ 64
  if data.length < pkgSize then ⟨clt, 0, data⟩
  else
    ⟨clt, (pkgSize : ℤ).bmod (2 ^ 32), data.take payload ++
      unmask masks ((data.drop payload).take payloadLen) ++ data.drop (payload + payloadLen)⟩

def decodePkg (clt : WsClt σ) (data : List UInt8) : Decoded (WsClt σ) :=
  if clt.upgrade = false then ⟨clt, (data.length : ℤ).bmod (2 ^ 32), data⟩
  else
    match data with
    | p0 :: p1 :: _ =>
      let frame : WsFrame := ⟨p0 &&& 0x80, p0 &&& 0x0f, 0, 0⟩
      let clt := { clt with frame := frame }
      let len := p1 &&& 0x7f
      if isGoodOpcode frame.opcode = false then ⟨clt, -1, data⟩
      else if p1 &&& 0x80 = 0 then ⟨clt, -1, data⟩
      else if len < 126 then clt.decodePayload frame 2 len.toNat data
      else if len = 126 then
        if data.length < 4 then ⟨clt, 0, data⟩
        else clt.decodePayload frame 4 (ByteOrder.big.decode ((data.drop 2).take 2)) data
      else
        if data.length < 10 then ⟨clt, 0, data⟩
        else clt.decodePayload frame 10 (ByteOrder.big.decode ((data.drop 2).take 8)) data
    | _ => ⟨clt, 0, data⟩

/-- Call `svr->type.on_message`. -/
def deliver (type : WsType σ) (clt : WsClt σ) (message : List UInt8) : WsClt σ × Bool :=
  let ret := type.onMessage clt.owner message
  let clt := { clt with
    message := some message, owner := ret.owner, messages := clt.messages ++ [message] }
  if ret.isOpen = false then (clt, false)
  else if ret.ret < 0 then (clt, false)
  else ({ clt with message := none }, true)

def onRecvPkg (type : WsType σ) (clt : WsClt σ) (data : List UInt8) (size : ℕ) : WsClt σ × Bool :=
  if clt.upgrade = false then type.handshake clt (data.take size)
  else if clt.frame.opcode = 0x8 then (clt, false)
  else if clt.frame.opcode = 0x9 then
    let pong := type.sendPong clt.owner
    ({ clt with owner := pong.1 }, pong.2)
  else if clt.frame.opcode = 0xa then (clt, true)
  else
    let message := clt.message.getD [] ++ (data.drop clt.frame.payload).take clt.frame.payloadLen
    if clt.frame.fin ≠ 0 then clt.deliver type message
    else ({ clt with message := some message }, true)

end WsClt

/-! ## The client -/

inductive WsOpcode where
  | continuation
  | text
  | binary
  | close
  | ping
  | pong
deriving DecidableEq, Repr

def WsOpcode.code : WsOpcode → UInt8
  | continuation => 0x0
  | text => 0x1
  | binary => 0x2
  | close => 0x8
  | ping => 0x9
  | pong => 0xa

def WsOpcode.isData : WsOpcode → Bool
  | continuation | text | binary => true
  | close | ping | pong => false

/-- The first byte of a frame. -/
def WsOpcode.firstByte (fin : Bool) (opcode : WsOpcode) : UInt8 :=
  (if fin then 0x80 else 0) ||| opcode.code

/-- How the length of the payload is written: in 7 bits, in 2 bytes or in 8. -/
inductive LenForm where
  | short
  | medium
  | long
deriving DecidableEq, Repr

/-- What the form leaves room for. -/
def LenForm.Fits : LenForm → ℕ → Prop
  | short, len => len < 126
  | medium, len => len < 2 ^ 16
  | long, len => len < 2 ^ 64

instance (form : LenForm) (len : ℕ) : Decidable (form.Fits len) :=
  match form with
  | .short => inferInstanceAs (Decidable (len < 126))
  | .medium => inferInstanceAs (Decidable (len < 2 ^ 16))
  | .long => inferInstanceAs (Decidable (len < 2 ^ 64))

/-- A masked frame of a client. -/
structure ClientFrame where
  fin : Bool
  opcode : WsOpcode
  form : LenForm
  masks : List UInt8
  payload : List UInt8
  masks_length : masks.length = 4
  fits : form.Fits payload.length

namespace ClientFrame

/-- The bytes before the masks. -/
def header (frame : ClientFrame) : List UInt8 :=
  let p0 := frame.opcode.firstByte frame.fin
  match frame.form with
  | .short => [p0, 0x80 ||| .ofNat frame.payload.length]
  | .medium => [p0, 0x80 ||| 126] ++ ByteOrder.big.encode 2 frame.payload.length
  | .long => [p0, 0x80 ||| 127] ++ ByteOrder.big.encode 8 frame.payload.length

def encode (frame : ClientFrame) : List UInt8 :=
  frame.header ++ frame.masks ++ unmask frame.masks frame.payload

/-- The messages that frames make, after data frames that brought `part`. -/
def reassembled : List UInt8 → List ClientFrame → List (List UInt8)
  | _, [] => []
  | part, frame :: frames =>
    if frame.opcode.isData then
      if frame.fin then (part ++ frame.payload) :: reassembled [] frames
      else reassembled (part ++ frame.payload) frames
    else reassembled part frames

theorem reassembled_control {frame : ClientFrame} (h : frame.opcode.isData = false)
    (part : List UInt8) (frames : List ClientFrame) :
    reassembled part (frame :: frames) = reassembled part frames := by
  rw [reassembled, h, if_neg Bool.false_ne_true]

theorem reassembled_part {frame : ClientFrame} (h : frame.opcode.isData = true)
    (hfin : frame.fin = false) (part : List UInt8) (frames : List ClientFrame) :
    reassembled part (frame :: frames) = reassembled (part ++ frame.payload) frames := by
  rw [reassembled, h, if_pos rfl, hfin, if_neg Bool.false_ne_true]

theorem reassembled_fin {frame : ClientFrame} (h : frame.opcode.isData = true)
    (hfin : frame.fin = true) (part : List UInt8) (frames : List ClientFrame) :
    reassembled part (frame :: frames) = (part ++ frame.payload) :: reassembled [] frames := by
  rw [reassembled, h, if_pos rfl, hfin, if_pos rfl]

end ClientFrame

/-! ## Masks and headers -/

@[simp] theorem length_unmask (masks payload : List UInt8) :
    (unmask masks payload).length = payload.length := by
  rw [unmask, List.length_mapIdx]

/-- Unmasked once, the payload is what it was before it was masked. -/
theorem unmask_unmask (masks payload : List UInt8) :
    unmask masks (unmask masks payload) = payload := by
  apply List.ext_getElem
  · rw [length_unmask, length_unmask]
  · intro i _ _
    simp [unmask, UInt8.xor_assoc]

namespace ClientFrame

variable {σ : Type} {frame : ClientFrame}

theorem firstByte_fin (fin : Bool) (opcode : WsOpcode) :
    opcode.firstByte fin &&& 0x80 ≠ 0 ↔ fin = true := by
  cases fin <;> cases opcode <;> decide

theorem firstByte_opcode (fin : Bool) (opcode : WsOpcode) :
    opcode.firstByte fin &&& 0x0f = opcode.code := by
  cases fin <;> cases opcode <;> decide

/-- The frame as `decode_pkg` has it after the first two bytes. -/
def begun (frame : ClientFrame) : WsFrame :=
  ⟨frame.opcode.firstByte frame.fin &&& 0x80, frame.opcode.firstByte frame.fin &&& 0x0f, 0, 0⟩

theorem begun_fin (frame : ClientFrame) : frame.begun.fin ≠ 0 ↔ frame.fin = true :=
  firstByte_fin frame.fin frame.opcode

theorem begun_opcode (frame : ClientFrame) : frame.begun.opcode = frame.opcode.code :=
  firstByte_opcode frame.fin frame.opcode

theorem isGoodOpcode_firstByte (fin : Bool) (opcode : WsOpcode) :
    ¬isGoodOpcode (opcode.firstByte fin &&& 0x0f) = false := by
  rw [firstByte_opcode]
  cases opcode <;> decide

theorem second_short {n : ℕ} (h : n < 126) :
    (0x80 ||| UInt8.ofNat n) &&& 0x80 ≠ 0 ∧ (0x80 ||| UInt8.ofNat n) &&& 0x7f < 126 ∧
      ((0x80 ||| UInt8.ofNat n) &&& 0x7f).toNat = n := by
  have hall : ∀ n : Fin 126, (0x80 ||| UInt8.ofNat n) &&& 0x80 ≠ 0 ∧
      (0x80 ||| UInt8.ofNat n) &&& 0x7f < 126 ∧ ((0x80 ||| UInt8.ofNat n) &&& 0x7f).toNat = n := by
    decide
  exact hall ⟨n, h⟩

/-- With the header received, the rest depends on the payload. -/
theorem decodePkg_header {clt : WsClt σ} (hupgrade : clt.upgrade = true) {data : List UInt8}
    (h : frame.header <+: data) :
    clt.decodePkg data = { clt with frame := frame.begun }.decodePayload frame.begun
      frame.header.length frame.payload.length data := by
  obtain ⟨rest, rfl⟩ := h
  have hgood := isGoodOpcode_firstByte frame.fin frame.opcode
  have hfits := frame.fits
  unfold WsClt.decodePkg
  rw [if_neg (by rw [hupgrade]; decide)]
  unfold header
  cases hform : frame.form with
  | short =>
    rw [hform] at hfits
    obtain ⟨hmask, hlt, hnat⟩ := second_short hfits
    simp only [List.cons_append, List.nil_append]
    rw [if_neg hgood, if_neg hmask, if_pos hlt, hnat]
    rfl
  | medium =>
    rw [hform] at hfits
    simp only [List.cons_append, List.nil_append]
    rw [if_neg hgood, if_neg (by decide),
      if_neg (by decide), if_pos (by decide), if_neg (by simp)]
    simp only [List.drop_succ_cons, List.drop_zero]
    rw [List.take_left' (ByteOrder.length_encode _ _ _), ByteOrder.decode_encode _ hfits]
    simp only [List.length_cons, ByteOrder.length_encode]
    rfl
  | long =>
    rw [hform] at hfits
    simp only [List.cons_append, List.nil_append]
    rw [if_neg hgood, if_neg (by decide),
      if_neg (by decide), if_neg (by decide), if_neg (by simp)]
    simp only [List.drop_succ_cons, List.drop_zero]
    rw [List.take_left' (ByteOrder.length_encode _ _ _), ByteOrder.decode_encode _ hfits]
    simp only [List.length_cons, ByteOrder.length_encode]
    rfl

/-- Of a part of the header `decode_pkg` wants more. -/
theorem decodePkg_short {clt : WsClt σ} (hupgrade : clt.upgrade = true) {data : List UInt8}
    (h : data <+: frame.header) (hshort : data.length < frame.header.length) :
    ∃ current, clt.decodePkg data = ⟨{ clt with frame := current }, 0, data⟩ := by
  have hgood := isGoodOpcode_firstByte frame.fin frame.opcode
  unfold WsClt.decodePkg
  rw [if_neg (by rw [hupgrade]; decide)]
  match data, h with
  | [], _ => exact ⟨clt.frame, rfl⟩
  | [p0], _ => exact ⟨clt.frame, rfl⟩
  | p0 :: p1 :: rest, h =>
    unfold header at h hshort
    cases hform : frame.form with
    | short =>
      rw [hform] at hshort
      simp only [List.length_cons, List.length_nil] at hshort
      omega
    | medium =>
      rw [hform] at h hshort
      obtain ⟨later, hlater⟩ := h
      simp only [List.cons_append, List.nil_append, List.cons.injEq] at hlater
      obtain ⟨rfl, rfl, -⟩ := hlater
      simp only [List.cons_append, List.nil_append, List.length_cons,
        ByteOrder.length_encode] at hshort
      dsimp only
      rw [if_neg hgood, if_neg (by decide), if_neg (by decide), if_pos (by decide),
        if_pos (by simp only [List.length_cons]; omega)]
      exact ⟨_, rfl⟩
    | long =>
      rw [hform] at h hshort
      obtain ⟨later, hlater⟩ := h
      simp only [List.cons_append, List.nil_append, List.cons.injEq] at hlater
      obtain ⟨rfl, rfl, -⟩ := hlater
      simp only [List.cons_append, List.nil_append, List.length_cons,
        ByteOrder.length_encode] at hshort
      dsimp only
      rw [if_neg hgood, if_neg (by decide), if_neg (by decide), if_neg (by decide),
        if_pos (by simp only [List.length_cons]; omega)]
      exact ⟨_, rfl⟩

theorem length_encode (frame : ClientFrame) :
    frame.encode.length = frame.header.length + 4 + frame.payload.length := by
  rw [encode, List.length_append, List.length_append, frame.masks_length, length_unmask]

/-- Of a part of a frame `decode_pkg` wants more. -/
theorem decodePkg_part {clt : WsClt σ} (hupgrade : clt.upgrade = true) {data : List UInt8}
    (h : data <+: frame.encode) (hshort : data.length < frame.encode.length)
    (hlen : frame.encode.length < 2 ^ 31) :
    ∃ current, clt.decodePkg data = ⟨{ clt with frame := current }, 0, data⟩ := by
  have hheader : frame.header <+: frame.encode := by
    rw [encode, List.append_assoc]
    exact List.prefix_append _ _
  by_cases hpart : data.length < frame.header.length
  · exact decodePkg_short hupgrade (List.prefix_of_prefix_length_le h hheader hpart.le) hpart
  · rw [decodePkg_header hupgrade (List.prefix_of_prefix_length_le hheader h (not_lt.mp hpart))]
    unfold WsClt.decodePayload
    rw [length_encode] at hshort hlen
    dsimp only
    rw [Nat.mod_eq_of_lt (by omega), if_pos hshort]
    exact ⟨_, rfl⟩

/-- The frame as `decode_pkg` leaves it. -/
def decoded (frame : ClientFrame) : WsFrame :=
  { frame.begun with payloadLen := frame.payload.length, payload := frame.header.length + 4 }

/-- Where the payload lies once it is unmasked. -/
theorem payload_decoded (frame : ClientFrame) (rest : List UInt8) :
    ((frame.header ++ frame.masks ++ frame.payload ++ rest).drop frame.decoded.payload).take
      frame.decoded.payloadLen = frame.payload := by
  have hmasks : frame.decoded.payload = (frame.header ++ frame.masks).length := by
    rw [List.length_append, frame.masks_length]
    rfl
  rw [hmasks, List.append_assoc _ frame.payload, List.drop_left]
  exact List.take_left

/-- A whole frame, whatever comes after it, is unmasked in place. -/
theorem decodePkg_whole {clt : WsClt σ} (hupgrade : clt.upgrade = true) (rest : List UInt8)
    (hlen : frame.encode.length < 2 ^ 31) :
    clt.decodePkg (frame.encode ++ rest) = ⟨{ clt with frame := frame.decoded },
      frame.encode.length, frame.header ++ frame.masks ++ frame.payload ++ rest⟩ := by
  have hdata : frame.encode ++ rest =
      frame.header ++ (frame.masks ++ (unmask frame.masks frame.payload ++ rest)) := by
    rw [encode, List.append_assoc, List.append_assoc]
  have hmasks : frame.header.length + 4 = (frame.header ++ frame.masks).length := by
    rw [List.length_append, frame.masks_length]
  rw [decodePkg_header hupgrade (by rw [hdata]; exact List.prefix_append _ _)]
  unfold WsClt.decodePayload
  dsimp only
  rw [← length_encode, Nat.mod_eq_of_lt (by omega), if_neg (by rw [List.length_append]; omega),
    Int.bmod_eq_of_le (by omega) (by omega)]
  congr 1
  rw [List.drop_left, hdata, List.drop_left, ← frame.masks_length, List.take_left, frame.masks_length,
    hmasks, ← List.append_assoc, List.take_left, List.drop_left, ← length_unmask frame.masks,
    List.take_left, unmask_unmask]

end ClientFrame

/-! ## Sessions -/

section Sessions

variable {σ : Type} (type : WsType σ)

/-- `decode_pkg` returns no more than it was given, and leaves as many bytes as there were. -/
def Decoded.Bounded (data : List UInt8) (decoded : Decoded (WsClt σ)) : Prop :=
  decoded.ret ≤ data.length ∧ decoded.data.length = data.length

theorem bmod_le_of_le {n len : ℕ} (h : n ≤ len) : (n : ℤ).bmod (2 ^ 32) ≤ len := by
  rw [Int.bmod_def]
  split_ifs <;> omega

theorem WsClt.decodePayload_bounded (clt : WsClt σ) (frame : WsFrame) (pkgSize payloadLen : ℕ)
    (data : List UInt8) : (clt.decodePayload frame pkgSize payloadLen data).Bounded data := by
  unfold decodePayload
  dsimp only
  split_ifs with hshort
  · exact ⟨Int.natCast_nonneg data.length, rfl⟩
  · constructor
    · dsimp only
      exact bmod_le_of_le (not_lt.mp hshort)
    · simp only [List.length_append, List.length_take, List.length_drop, length_unmask]
      omega

theorem WsClt.decodePkg_bounded (clt : WsClt σ) (data : List UInt8) :
    (clt.decodePkg data).Bounded data := by
  have hzero (clt : WsClt σ) : Decoded.Bounded data ⟨clt, 0, data⟩ := ⟨Int.natCast_nonneg _, rfl⟩
  have hneg (clt : WsClt σ) : Decoded.Bounded data ⟨clt, -1, data⟩ :=
    ⟨(by decide : (-1 : ℤ) ≤ 0).trans (Int.natCast_nonneg _), rfl⟩
  unfold decodePkg
  by_cases hupgrade : clt.upgrade = false
  · rw [if_pos hupgrade]
    constructor
    · dsimp only
      exact bmod_le_of_le le_rfl
    · rfl
  · rw [if_neg hupgrade]
    match data with
    | [] => exact hzero _
    | [_] => exact hzero _
    | p0 :: p1 :: rest =>
      dsimp only
      by_cases hgood : isGoodOpcode (p0 &&& 0x0f) = false
      · rw [if_pos hgood]
        exact hneg _
      by_cases hmask : p1 &&& 0x80 = 0
      · rw [if_neg hgood, if_pos hmask]
        exact hneg _
      rw [if_neg hgood, if_neg hmask]
      by_cases hshort : p1 &&& 0x7f < 126
      · rw [if_pos hshort]
        exact decodePayload_bounded _ _ _ _ _
      rw [if_neg hshort]
      by_cases hmedium : p1 &&& 0x7f = 126
      · rw [if_pos hmedium]
        by_cases hlen : (p0 :: p1 :: rest).length < 4
        · rw [if_pos hlen]
          exact hzero _
        · rw [if_neg hlen]
          exact decodePayload_bounded _ _ _ _ _
      · rw [if_neg hmedium]
        by_cases hlen : (p0 :: p1 :: rest).length < 10
        · rw [if_pos hlen]
          exact hzero _
        · rw [if_neg hlen]
          exact decodePayload_bounded _ _ _ _ _

/-- The callbacks of `ut_ws_svr.c`. -/
def wsType : PkgType (WsClt σ) where
  decodePkg := WsClt.decodePkg
  onRecvPkg := WsClt.onRecvPkg type
  ret_le clt data := (clt.decodePkg_bounded data).1
  length_eq clt data := (clt.decodePkg_bounded data).2

/-- What a frame does, its payload unmasked. -/
def WsClt.take (clt : WsClt σ) (frame : ClientFrame) : WsClt σ × Bool :=
  match frame.opcode with
  | .close => (clt, false)
  | .ping => ({ clt with owner := (type.sendPong clt.owner).1 }, (type.sendPong clt.owner).2)
  | .pong => (clt, true)
  | .continuation | .text | .binary =>
    let message := clt.message.getD [] ++ frame.payload
    if frame.fin then clt.deliver type message else ({ clt with message := some message }, true)

/-- The data of the session is upgraded, and `clt` but for the current frame. -/
def WsClt.Upgraded (clt clt' : WsClt σ) : Prop :=
  clt.upgrade = true ∧ ∃ current, clt' = { clt with frame := current }

variable {type}

theorem WsClt.onRecvPkg_take {clt : WsClt σ} (hupgrade : clt.upgrade = true) (frame : ClientFrame)
    (rest : List UInt8) (size : ℕ) :
    WsClt.onRecvPkg type { clt with frame := frame.decoded }
        (frame.header ++ frame.masks ++ frame.payload ++ rest) size =
      ({ (clt.take type frame).1 with frame := frame.decoded }, (clt.take type frame).2) := by
  have hop : frame.decoded.opcode = frame.opcode.code := frame.begun_opcode
  have hfin : frame.decoded.fin ≠ 0 ↔ frame.fin = true := frame.begun_fin
  unfold WsClt.onRecvPkg WsClt.take
  dsimp only
  rw [if_neg (by rw [hupgrade]; decide), hop]
  have hdata : (if frame.decoded.fin ≠ 0 then { clt with frame := frame.decoded }.deliver type
      (clt.message.getD [] ++ frame.payload) else
        ({ clt with
          frame := frame.decoded
          message := some (clt.message.getD [] ++ frame.payload) }, true)) =
      ({ (if frame.fin then clt.deliver type (clt.message.getD [] ++ frame.payload) else
        ({ clt with message := some (clt.message.getD [] ++ frame.payload) }, true)).1 with
        frame := frame.decoded },
          (if frame.fin then clt.deliver type (clt.message.getD [] ++ frame.payload)
        else ({ clt with message := some (clt.message.getD [] ++ frame.payload) }, true)).2) := by
    by_cases hf : frame.fin = true
    · rw [if_pos (hfin.mpr hf), if_pos hf]
      unfold WsClt.deliver
      dsimp only
      split_ifs <;> rfl
    · rw [if_neg (fun h => hf (hfin.mp h)), if_neg hf]
  cases hcode : frame.opcode with
  | close => rfl
  | ping => rfl
  | pong => rfl
  | continuation | text | binary =>
    rw [if_neg (by decide), if_neg (by decide), if_neg (by decide)]
    rw [frame.payload_decoded]
    exact hdata

theorem WsClt.upgrade_deliver (clt : WsClt σ) (message : List UInt8) :
    (clt.deliver type message).1.upgrade = clt.upgrade := by
  unfold WsClt.deliver
  dsimp only
  split_ifs <;> rfl

theorem WsClt.upgrade_take (clt : WsClt σ) (frame : ClientFrame) :
    (clt.take type frame).1.upgrade = clt.upgrade := by
  unfold WsClt.take
  cases frame.opcode with
  | close | ping | pong => rfl
  | continuation | text | binary =>
    dsimp only
    split_ifs
    · exact clt.upgrade_deliver _
    · rfl

variable (type)

theorem wsType_speaks : (wsType type).Speaks
    (fun frame : ClientFrame => frame.encode.length < 2 ^ 31) ClientFrame.encode (fun _ _ => True)
    WsClt.Upgraded (WsClt.take type) where
  nonempty frame _ hnil := by
    have hlen := frame.length_encode
    rw [hnil, List.length_nil] at hlen
    omega
  part t s frame data hlen ht _ hprefix hshort := by
    obtain ⟨hupgrade, current, rfl⟩ := ht
    obtain ⟨current', hpart⟩ := ClientFrame.decodePkg_part
      (show ({ t with frame := current } : WsClt σ).upgrade = true from hupgrade)
        hprefix hshort hlen
    simp only [wsType, hpart]
    exact ⟨trivial, trivial, hupgrade, current', rfl⟩
  whole t s frame rest hlen ht := by
    obtain ⟨hupgrade, current, rfl⟩ := ht
    have hwhole := ClientFrame.decodePkg_whole
      (show ({ t with frame := current } : WsClt σ).upgrade = true from hupgrade) rest hlen
    simp only [wsType, hwhole]
    refine ⟨trivial, _, rfl, ?_, fun after => ?_⟩
    · rw [frame.length_encode, List.length_append, List.length_append, frame.masks_length]
    · rw [WsClt.onRecvPkg_take hupgrade]
      exact ⟨trivial, rfl, (WsClt.upgrade_take t frame).trans hupgrade, _, rfl⟩

/-- What a frame adds to the messages, and what it leaves of the current one. -/
theorem WsClt.messages_take (clt : WsClt σ) (frame : ClientFrame) :
    (clt.take type frame).1.messages =
        clt.messages ++ ClientFrame.reassembled (clt.message.getD []) [frame] ∧
      ((clt.take type frame).2 = true → ∀ later,
        (clt.take type frame).1.messages ++
          ClientFrame.reassembled ((clt.take type frame).1.message.getD []) later =
        clt.messages ++ ClientFrame.reassembled (clt.message.getD []) (frame :: later)) := by
  unfold WsClt.take
  cases hop : frame.opcode with
  | close | ping | pong =>
    have hcontrol : frame.opcode.isData = false := by rw [hop]; rfl
    simp only [ClientFrame.reassembled_control hcontrol]
    exact ⟨(List.append_nil _).symm, fun _ _ => trivial⟩
  | continuation | text | binary =>
    have hdata : frame.opcode.isData = true := by rw [hop]; rfl
    cases hfin : frame.fin with
    | false =>
      simp only [ClientFrame.reassembled_part hdata hfin, Bool.false_eq_true, if_false]
      exact ⟨(List.append_nil _).symm, fun _ _ => rfl⟩
    | true =>
      simp only [ClientFrame.reassembled_fin hdata hfin, if_true]
      unfold WsClt.deliver
      dsimp only
      split_ifs with hopen hret
      · exact ⟨rfl, nofun⟩
      · exact ⟨rfl, nofun⟩
      · exact ⟨rfl, fun _ later => by rw [List.append_assoc]; rfl⟩

/-- The messages of the frames handed over. -/
theorem WsClt.messages_handleAll (clt : WsClt σ) (frames : List ClientFrame) :
    (handleAll (WsClt.take type) clt frames).1.messages = clt.messages ++
      ClientFrame.reassembled (clt.message.getD []) (handled (WsClt.take type) clt frames) := by
  induction frames generalizing clt with
  | nil => exact (List.append_nil _).symm
  | cons frame frames ih =>
    obtain ⟨hmessages, hrest⟩ := WsClt.messages_take type clt frame
    cases hmore : (clt.take type frame).2 with
    | false =>
      rw [handleAll_cons_of_stop hmore, handled_cons_of_stop hmore]
      exact hmessages
    | true =>
      rw [handleAll_cons_of_more hmore, handled_cons_of_more hmore, ← hrest hmore]
      exact ih _

/-- A connection that has been upgraded, and nothing else. -/
def WsClt.start (owner : σ) : WsClt σ := ⟨true, ⟨0, 0, 0, 0⟩, none, owner, []⟩

/-- **Messages over a websocket.** However frames are cut into reads, `on_message` is called once
for each data frame with `fin`, in order, with the payloads of the data frames since the one before,
until the session is closed, and there is no error. -/
theorem messages_reassembled (frames : List ClientFrame) (size : ℕ) {owner : σ} {sesType : SesType}
    {wakes : List Wake} (hlen : ∀ frame ∈ frames, frame.encode.length < 2 ^ 31)
    (hsize : ∀ frame ∈ frames, frame.encode.length ≤ size)
    (hcut : wakes.flatMap Wake.data = frames.flatMap ClientFrame.encode)
    (hfits : NwSes.Fits (wsType type) size (.start .stream sesType (.start owner)) wakes) :
    (NwSes.readAll (wsType type) (.start .stream sesType (.start owner)) wakes).errors = [] ∧
      (NwSes.readAll (wsType type) (.start .stream sesType (.start owner)) wakes).privdata.messages =
        ClientFrame.reassembled [] (handled (WsClt.take type) (.start owner) frames) ∧
      ((NwSes.readAll (wsType type) (.start .stream sesType (.start owner)) wakes).isOpen = true →
        (NwSes.readAll (wsType type) (.start .stream sesType (.start owner)) wakes).privdata.messages =
          ClientFrame.reassembled [] frames) := by
  obtain ⟨hafter, hopen⟩ := (wsType_speaks type).readAll_blocks (t := .start owner) hlen hsize rfl rfl
    ⟨rfl, _, rfl⟩ (.inl rfl) (fun _ hbuf => by cases hbuf) (by rw [hcut]; rfl) hfits
  have hmessages := WsClt.messages_handleAll type (.start owner) frames
  obtain ⟨-, current, hdata⟩ := hafter.inv
  have hall : (NwSes.readAll (wsType type) (.start .stream sesType (.start owner)) wakes).privdata.messages =
      ClientFrame.reassembled [] (handled (WsClt.take type) (.start owner) frames) := by
    rw [hdata]
    exact hmessages
  refine ⟨hafter.errors, hall, fun hstill => ?_⟩
  rw [hall, handled_of_more (hopen.symm.trans hstill)]

end Sessions

/-! ## A message in two frames -/

/-- A text of two frames, with a ping in between. -/
def exampleFrames : List ClientFrame :=
  [⟨false, .text, .short, [1, 2, 3, 4], [104, 101], rfl, by decide⟩,
    ⟨true, .ping, .short, [9, 9, 9, 9], [], rfl, by decide⟩,
    ⟨true, .continuation, .short, [5, 6, 7, 8], [121], rfl, by decide⟩]

def exampleWsType : PkgType (WsClt Unit) :=
  wsType ⟨fun u _ => ⟨u, 0, true⟩, fun u => (u, true), fun clt _ => (clt, true)⟩

def exampleWsWake : Wake :=
  ⟨some (List.replicate 64 0), [.bytes (exampleFrames.flatMap ClientFrame.encode) false]⟩

theorem messages_reassembled_ping :
    (NwSes.readAll exampleWsType (.start .stream .common (.start ())) [exampleWsWake]).errors = [] ∧
    (NwSes.readAll exampleWsType (.start .stream .common (.start ()))
      [exampleWsWake]).privdata.messages = [[104, 101, 121]] := by
  have hfits :
      NwSes.Fits exampleWsType 64 (.start .stream .common (.start ())) [exampleWsWake] := by
    refine ⟨fun _ => ⟨⟨_, rfl, by decide⟩, fun buf hbuf => ?_⟩, trivial⟩
    obtain rfl : NwBuf.alloc (List.replicate 64 0) = buf := Option.some.inj hbuf
    exact ⟨by decide, by decide, fun _ _ _ => trivial⟩
  have hall := messages_reassembled ⟨fun u _ => ⟨u, 0, true⟩, fun u => (u, true), fun clt _ => (clt, true)⟩
    exampleFrames 64 (by decide) (by decide) (by decide) hfits
  exact ⟨hall.1, hall.2.1.trans (by decide)⟩

end ViabtcExchange
