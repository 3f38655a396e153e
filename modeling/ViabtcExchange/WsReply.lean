import ViabtcExchange.WsFrames

/-!
# The frames that `send_reply` writes (`ut_ws_svr.c`)

`send_reply` writes the length in as few bytes as hold it, the highest byte first, and `decode_pkg`
takes it in any form. A client masks what it sends, a server does not: what both agree on is a reply
with the mask bit set and the masks in it.

**Theorem (`reply_decoded`).** Such a frame is decoded to what was replied, and no part of it is.
-/

namespace ViabtcExchange

/-! ## Writing -/

/-- The first bytes of `buf`, and `pkg_len` is their number. -/
def replyHeader (opcode : UInt8) (payloadLen : ℕ) : List UInt8 :=
  let p0 := (1 : UInt8) <<< 7 ||| opcode
  if payloadLen < 126 then [p0, .ofNat payloadLen]
  else if payloadLen ≤ 0xffff then [p0, 126] ++ ByteOrder.big.encode 2 payloadLen
  else [p0, 127] ++ ByteOrder.big.encode 8 payloadLen

/-- `send_reply`: what is given to `nw_ses_send`. There may be no payload (`NULL`). -/
def sendReply (opcode : UInt8) (payload : Option (List UInt8)) : List UInt8 :=
  match payload with
  | none => replyHeader opcode 0
  | some payload => replyHeader opcode payload.length ++ payload

/-- The 10 bytes that `require_len` adds to the payload hold the header. -/
theorem length_sendReply_le (opcode : UInt8) (payload : Option (List UInt8)) :
    (sendReply opcode payload).length ≤ 10 + (payload.getD []).length := by
  have hheader : ∀ len, (replyHeader opcode len).length ≤ 10 := by
    intro len
    unfold replyHeader
    dsimp only
    split_ifs <;> simp
  cases payload with
  | none => exact (hheader 0).trans (Nat.le_add_right _ _)
  | some payload =>
    rw [sendReply, List.length_append, Option.getD_some]
    exact Nat.add_le_add_right (hheader _) _

/-- Set the mask bit. -/
def setMaskBit : List UInt8 → List UInt8
  | p0 :: p1 :: rest => p0 :: (0x80 ||| p1) :: rest
  | header => header

/-- The reply as a client would send it. -/
def maskedReply (opcode : UInt8) (payload : Option (List UInt8)) (masks : List UInt8) : List UInt8 :=
  let header := replyHeader opcode (payload.getD []).length
  setMaskBit header ++ masks ++ unmask masks ((sendReply opcode payload).drop header.length)

/-! ## The frame of a client -/

/-- The shortest form that holds a length. -/
def LenForm.least (len : ℕ) : LenForm :=
  if len < 126 then short else if len ≤ 0xffff then medium else long

theorem LenForm.fits_least {len : ℕ} (h : len < 2 ^ 64) : (least len).Fits len := by
  unfold least
  split_ifs with hshort hmedium
  · exact hshort
  · exact Nat.lt_succ_of_le hmedium
  · exact h

/-- The opcodes of the list are those that have a name. -/
theorem exists_wsOpcode {opcode : UInt8} (h : isGoodOpcode opcode = true) :
    ∃ named : WsOpcode, named.code = opcode := by
  simp only [isGoodOpcode, List.contains_iff_mem, List.mem_cons, List.not_mem_nil, or_false] at h
  rcases h with rfl | rfl | rfl | rfl | rfl | rfl
  · exact ⟨.continuation, rfl⟩
  · exact ⟨.text, rfl⟩
  · exact ⟨.binary, rfl⟩
  · exact ⟨.close, rfl⟩
  · exact ⟨.ping, rfl⟩
  · exact ⟨.pong, rfl⟩

section Masked

variable {opcode : WsOpcode} {payload : Option (List UInt8)} {masks : List UInt8}

/-- The frame that a client makes of the reply. -/
def clientReply (opcode : WsOpcode) (payload : Option (List UInt8)) (masks : List UInt8)
    (hmasks : masks.length = 4) (hlen : (payload.getD []).length < 2 ^ 64) : ClientFrame :=
  ⟨true, opcode, .least (payload.getD []).length, masks, payload.getD [], hmasks,
    LenForm.fits_least hlen⟩

theorem drop_sendReply (opcode : UInt8) (payload : Option (List UInt8)) :
    (sendReply opcode payload).drop (replyHeader opcode (payload.getD []).length).length =
      payload.getD [] := by
  cases payload with
  | none => exact List.drop_length
  | some payload => exact List.drop_left

theorem ClientFrame.header_length_le (frame : ClientFrame) : frame.header.length ≤ 10 := by
  unfold header
  cases frame.form <;> simp

/-- Both sides write the header alike. -/
theorem maskedReply_eq (hmasks : masks.length = 4) (hlen : (payload.getD []).length < 2 ^ 64) :
    maskedReply opcode.code payload masks =
      (clientReply opcode payload masks hmasks hlen).encode := by
  have hfirst : (1 : UInt8) <<< 7 ||| opcode.code = opcode.firstByte true := by
    cases opcode <;> decide
  unfold maskedReply ClientFrame.encode
  dsimp only
  rw [drop_sendReply]
  refine congrArg (· ++ masks ++ unmask masks (payload.getD [])) ?_
  unfold replyHeader ClientFrame.header clientReply LenForm.least
  dsimp only
  rw [hfirst]
  split_ifs <;> rfl

end Masked

section Decoded

variable {σ : Type} {clt : WsClt σ}

/-- **Replies can be decoded.** -/
theorem reply_decoded (hupgrade : clt.upgrade = true) {opcode : UInt8} (hop : isGoodOpcode opcode = true)
    (payload : Option (List UInt8)) (hlen : (payload.getD []).length < 2 ^ 31 - 14) {masks : List UInt8}
    (hmasks : masks.length = 4) :
    (∀ rest : List UInt8,
      let decoded := clt.decodePkg (maskedReply opcode payload masks ++ rest)
      decoded.ret = (maskedReply opcode payload masks).length ∧
      decoded.privdata.frame.fin ≠ 0 ∧ decoded.privdata.frame.opcode = opcode ∧
      (decoded.data.drop decoded.privdata.frame.payload).take decoded.privdata.frame.payloadLen =
        payload.getD []) ∧
    ∀ data : List UInt8, data <+: maskedReply opcode payload masks →
      data ≠ maskedReply opcode payload masks →
      (replyHeader opcode (payload.getD []).length).length + 4 ≤ data.length →
      (clt.decodePkg data).ret = 0 := by
  obtain ⟨opcode, rfl⟩ := exists_wsOpcode hop
  have hframe := @maskedReply_eq opcode payload masks hmasks (by omega)
  generalize hreply : clientReply opcode payload masks hmasks _ = frame at hframe
  have hpayload : frame.payload = payload.getD [] := by rw [← hreply]; rfl
  have hlength : frame.encode.length < 2 ^ 31 := by
    have hheader := frame.header_length_le
    rw [ClientFrame.length_encode, hpayload]
    omega
  rw [hframe]
  refine ⟨fun rest => ?_, fun data hprefix hne _ => ?_⟩
  · rw [ClientFrame.decodePkg_whole hupgrade rest hlength]
    refine ⟨rfl, frame.begun_fin.mpr (by rw [← hreply]; rfl), ?_, ?_⟩
    · rw [← hreply]
      exact ClientFrame.begun_opcode _
    · rw [← hpayload]
      exact frame.payload_decoded rest
  · have hshort : data.length < frame.encode.length := by
      refine lt_of_le_of_ne hprefix.length_le fun hsame => hne ?_
      exact hprefix.eq_of_length hsame
    obtain ⟨current, hdecode⟩ := ClientFrame.decodePkg_part hupgrade hprefix hshort hlength
    rw [hdecode]

end Decoded

/-- A text of 126 bytes, the first length that needs two bytes of its own, and a byte behind it. -/
theorem reply_decoded_medium :
    ((WsClt.start ()).decodePkg (maskedReply 0x1 (some (List.replicate 126 7)) [1, 2, 3, 4] ++ [0x81])).ret = 134 ∧
      ((WsClt.start ()).decodePkg ((maskedReply 0x1 (some (List.replicate 126 7)) [1, 2, 3, 4]).take 8)).ret = 0 := by
  obtain ⟨hwhole, hpart⟩ := @reply_decoded _ (.start ()) rfl 0x1 (by decide)
    (some (List.replicate 126 7)) (by rw [Option.getD_some, List.length_replicate]; norm_num)
      [1, 2, 3, 4] rfl
  exact ⟨(hwhole [0x81]).1.trans (by decide +kernel),
    hpart _ (List.take_prefix _ _) (by decide +kernel) (by decide +kernel)⟩

end ViabtcExchange
