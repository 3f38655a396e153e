import ViabtcExchange.WsFrames

/-!
# What `decode_pkg` touches (`ut_ws_svr.c`)

After the length of the payload `decode_pkg` copies the four masks, and only then looks whether the
frame has been received: where the received bytes end behind the length, the masks are read from
behind them. The size is a sum in 64 bits with a length of 64 bits, so it may begin again at 0, and
the loop over the payload then leaves the buffer. It is returned as an `int`.

**Theorem (`boundedFrame_iff`).** Of all received bytes `Decodable` says whether the decoder keeps
to them, returns the size of the frame, and asks for more only of what may become a frame.
-/

namespace ViabtcExchange

/-! ## The accesses -/

/-- `count` bytes from `first` on. -/
structure Span where
  first : ℕ
  count : ℕ
deriving DecidableEq, Repr

namespace WsClt

/-- Of `decode_pkg` from the masks on: the masks, and in the loop the payload. -/
def payloadAccesses (pkgSize payloadLen : ℕ) (data : List UInt8) : List Span :=
  let payload := pkgSize + 4
  if data.length < (payload + payloadLen) % 2 ^ 64 then [⟨pkgSize, 4⟩]
  else [⟨pkgSize, 4⟩, ⟨payload, payloadLen⟩]

/-- What `decode_pkg` reads or writes of the data, with the connection upgraded. -/
def accesses (data : List UInt8) : List Span :=
  match data with
  | p0 :: p1 :: _ =>
    let len := p1 &&& 0x7f
    if isGoodOpcode (p0 &&& 0x0f) = false then [⟨0, 1⟩]
    else if p1 &&& 0x80 = 0 then [⟨0, 1⟩, ⟨1, 1⟩]
    else if len < 126 then [⟨0, 1⟩, ⟨1, 1⟩] ++ payloadAccesses 2 len.toNat data
    else if len = 126 then
      if data.length < 4 then [⟨0, 1⟩, ⟨1, 1⟩]
      else [⟨0, 1⟩, ⟨1, 1⟩, ⟨2, 2⟩] ++
        payloadAccesses 4 (ByteOrder.big.decode ((data.drop 2).take 2)) data
    else
      if data.length < 10 then [⟨0, 1⟩, ⟨1, 1⟩]
      else [⟨0, 1⟩, ⟨1, 1⟩, ⟨2, 8⟩] ++
        payloadAccesses 10 (ByteOrder.big.decode ((data.drop 2).take 8)) data
  | _ => []

end WsClt

/-! ## Frames as the decoder has them -/

namespace LenForm

/-- The form that the 7 bits of the second byte announce. -/
def ofBits (len : UInt8) : LenForm :=
  if len < 126 then short else if len = 126 then medium else long

/-- The length of the header before the masks. -/
def size : LenForm → ℕ
  | short => 2
  | medium => 4
  | long => 10

/-- The second byte of the header and those after it. -/
def bytes (form : LenForm) (len : ℕ) : List UInt8 :=
  match form with
  | short => [0x80 ||| .ofNat len]
  | medium => (0x80 ||| 126) :: ByteOrder.big.encode 2 len
  | long => (0x80 ||| 127) :: ByteOrder.big.encode 8 len

/-- The length that a header states. -/
def read (form : LenForm) (data : List UInt8) : ℕ :=
  match form with
  | short => (data.getD 1 0 &&& 0x7f).toNat
  | medium => ByteOrder.big.decode ((data.drop 2).take 2)
  | long => ByteOrder.big.decode ((data.drop 2).take 8)

end LenForm

/-- The form of the length in what has been received. -/
def lenForm (data : List UInt8) : LenForm := .ofBits (data.getD 1 0 &&& 0x7f)

/-- A masked frame. In its first byte only the opcode is looked at. -/
def ValidFrame (bytes : List UInt8) : Prop :=
  ∃ (p0 : UInt8) (form : LenForm) (masks payload : List UInt8),
    isGoodOpcode (p0 &&& 0x0f) = true ∧ masks.length = 4 ∧ form.Fits payload.length ∧
      bytes = p0 :: form.bytes payload.length ++ masks ++ payload

/-- There is a frame that begins with the data and goes on. -/
def Extends (data : List UInt8) : Prop := ∃ bytes, ValidFrame bytes ∧ data <+: bytes ∧ data ≠ bytes

/-- A client sends no others. -/
theorem ClientFrame.validFrame (frame : ClientFrame) : ValidFrame frame.encode := by
  refine ⟨frame.opcode.firstByte frame.fin, frame.form, frame.masks,
    unmask frame.masks frame.payload, ?_, frame.masks_length, ?_, ?_⟩
  · exact Bool.eq_true_of_not_eq_false (isGoodOpcode_firstByte frame.fin frame.opcode)
  · rw [length_unmask]
    exact frame.fits
  · rw [length_unmask]
    unfold encode header
    cases frame.form <;> rfl

/-! ## What is right, and when -/

/-- `decode_pkg` keeps to the bytes it is given, and returns what is right. -/
structure BoundedFrame {σ : Type} (clt : WsClt σ) (data : List UInt8) : Prop where
  inside : ∀ span ∈ WsClt.accesses data, span.first + span.count ≤ data.length
  /-- A size is that of the header, the masks and the payload, which ends there. -/
  size : 0 < (clt.decodePkg data).ret →
    (clt.decodePkg data).ret = (lenForm data).size + 4 + (clt.decodePkg data).privdata.frame.payloadLen ∧
      (clt.decodePkg data).ret ≤ data.length ∧
      ((clt.decodePkg data).privdata.frame.payload + (clt.decodePkg data).privdata.frame.payloadLen : ℤ) =
        (clt.decodePkg data).ret
  more : (clt.decodePkg data).ret = 0 → (clt.decodePkg data).data = data ∧
    Extends data

/-- The size of the frame that has been begun, over ℕ. -/
def frameSize (data : List UInt8) : ℕ := (lenForm data).size + 4 + (lenForm data).read data

/-- Where the received bytes end in the masks, the size needs more than 64 bits, or the frame is
there but its size is no `int`, things go wrong; so they do of a single byte that begins no
frame. -/
def Decodable (data : List UInt8) : Prop :=
  match data with
  | [] => True
  | [p0] => isGoodOpcode (p0 &&& 0x0f) = true
  | p0 :: p1 :: _ =>
    isGoodOpcode (p0 &&& 0x0f) = false ∨ p1 &&& 0x80 = 0 ∨ data.length < (lenForm data).size ∨
      (lenForm data).size + 4 ≤ data.length ∧ frameSize data < 2 ^ 64 ∧
        (frameSize data ≤ data.length → frameSize data < 2 ^ 31 ∨ 2 ^ 31 ≤ frameSize data % 2 ^ 32)

/-! ## The length, written and read -/

namespace LenForm

theorem forall_uint8 {P : UInt8 → Prop} (h : ∀ n : Fin 256, P (.ofNat n)) (b : UInt8) : P b := by
  have hb := h ⟨b.toNat, b.toNat_lt⟩
  rwa [UInt8.ofNat_toNat] at hb

/-- The second byte, of the mask and the length. -/
theorem second_eq : ∀ b : UInt8, b &&& 0x80 ≠ 0 → b = 0x80 ||| (b &&& 0x7f) :=
  forall_uint8 (by decide +kernel)

/-- Where the 7 bits are no length, they are one of two numbers. -/
theorem second_cases : ∀ b : UInt8, b &&& 0x80 ≠ 0 →
    ofBits (b &&& 0x7f) = short ∧ (b &&& 0x7f).toNat < 126 ∨ ofBits (b &&& 0x7f) = medium ∧
      b = 0x80 ||| 126 ∨
      ofBits (b &&& 0x7f) = long ∧ b = 0x80 ||| 127 :=
  forall_uint8 (by decide +kernel)

theorem length_bytes (form : LenForm) (len : ℕ) : (form.bytes len).length + 1 = form.size := by
  cases form <;> simp [bytes, size]

theorem two_le_size (form : LenForm) : 2 ≤ form.size := by cases form <;> decide

/-- A length that is written can be read, in the form that is announced. -/
theorem read_bytes {form : LenForm} {len : ℕ} (h : form.Fits len) (p0 : UInt8) (rest : List UInt8) :
    form.read (p0 :: form.bytes len ++ rest) = len ∧
      ofBits ((p0 :: form.bytes len ++ rest).getD 1 0 &&& 0x7f) = form := by
  cases form with
  | short =>
    obtain ⟨-, hlt, hnat⟩ := ClientFrame.second_short h
    exact ⟨hnat, by simp only [bytes, List.cons_append, List.nil_append, List.getD_cons_succ,
      List.getD_cons_zero, ofBits, if_pos hlt]⟩
  | medium =>
    refine ⟨?_, (by decide : ofBits ((0x80 ||| 126 : UInt8) &&& 0x7f) = medium)⟩
    simp only [read, bytes, List.cons_append, List.drop_succ_cons, List.drop_zero]
    rw [List.take_left' (ByteOrder.length_encode _ _ _), ByteOrder.decode_encode _ h]
  | long =>
    refine ⟨?_, (by decide : ofBits ((0x80 ||| 127 : UInt8) &&& 0x7f) = long)⟩
    simp only [read, bytes, List.cons_append, List.drop_succ_cons, List.drop_zero]
    rw [List.take_left' (ByteOrder.length_encode _ _ _), ByteOrder.decode_encode _ h]

/-- A number of `n` bytes that have been received. -/
theorem encode_decode_take {n : ℕ} {l : List UInt8} (h : n ≤ l.length) :
    ByteOrder.big.decode (l.take n) < 256 ^ n ∧
      ByteOrder.big.encode n (ByteOrder.big.decode (l.take n)) = l.take n := by
  have htake : (l.take n).length = n := List.length_take_of_le h
  have hlt := ByteOrder.decode_lt .big (l.take n)
  rw [htake] at hlt
  exact ⟨hlt, ByteOrder.encode_decode _ htake⟩

/-- A header that has been received is that of the length it states. -/
theorem bytes_read {p0 p1 : UInt8} {rest : List UInt8} {form : LenForm} (hmask : p1 &&& 0x80 ≠ 0)
    (hform : ofBits (p1 &&& 0x7f) = form) (hlen : form.size ≤ (p0 :: p1 :: rest).length) :
    form.Fits (form.read (p0 :: p1 :: rest)) ∧
      (p0 :: p1 :: rest).take form.size = p0 :: form.bytes (form.read (p0 :: p1 :: rest)) := by
  have hsecond := second_eq p1 hmask
  rcases second_cases p1 hmask with ⟨hkind, hlt⟩ | ⟨hkind, hp1⟩ | ⟨hkind, hp1⟩
  · obtain rfl := hform.symm.trans hkind
    refine ⟨hlt, ?_⟩
    simp only [size, bytes, read, List.take_succ_cons, List.take_zero, List.getD_cons_succ,
      List.getD_cons_zero, UInt8.ofNat_toNat]
    rw [← hsecond]
  · obtain rfl := hform.symm.trans hkind
    obtain ⟨hlt, hencode⟩ := @encode_decode_take 2 rest (by simpa [size] using hlen)
    refine ⟨hlt, ?_⟩
    simp only [size, bytes, read, List.take_succ_cons, List.drop_succ_cons, List.drop_zero]
    rw [hencode, hp1]
  · obtain rfl := hform.symm.trans hkind
    obtain ⟨hlt, hencode⟩ := @encode_decode_take 8 rest (by simpa [size] using hlen)
    refine ⟨hlt, ?_⟩
    simp only [size, bytes, read, List.take_succ_cons, List.drop_succ_cons, List.drop_zero]
    rw [hencode, hp1]

end LenForm

/-! ## What may become a frame -/

section Begun

variable {data : List UInt8}

/-- The length is read from the header alone. -/
theorem header_append (h : (lenForm data).size ≤ data.length) (more : List UInt8) :
    lenForm (data ++ more) = lenForm data ∧ frameSize (data ++ more) = frameSize data := by
  have htwo := (lenForm data).two_le_size
  have hsecond : (data ++ more).getD 1 0 = data.getD 1 0 := by
    rw [List.getD_eq_getElem?_getD, List.getD_eq_getElem?_getD,
      List.getElem?_append_left (by omega)]
  have hform : lenForm (data ++ more) = lenForm data := by
    unfold lenForm
    rw [hsecond]
  have htake : ∀ n, n + 2 ≤ data.length →
      ((data ++ more).drop 2).take n = (data.drop 2).take n := by
    intro n hn
    rw [List.drop_append_of_le_length (by omega),
      List.take_append_of_le_length (by rw [List.length_drop]; omega)]
  refine ⟨hform, ?_⟩
  unfold frameSize
  rw [hform]
  cases hkind : lenForm data with
  | short =>
    simp only [LenForm.read]
    rw [hsecond]
  | medium =>
    rw [hkind] at h
    simp only [LenForm.read]
    rw [htake 2 h]
  | long =>
    rw [hkind] at h
    simp only [LenForm.read]
    rw [htake 8 h]

/-- The data begins as a frame does. -/
structure Begins (data : List UInt8) (p0 p1 : UInt8) (rest : List UInt8) : Prop where
  eq : data = p0 :: p1 :: rest
  opcode : isGoodOpcode (p0 &&& 0x0f) = true
  mask : p1 &&& 0x80 ≠ 0

variable {p0 p1 : UInt8} {rest : List UInt8}

theorem Begins.form_eq (h : Begins data p0 p1 rest) : lenForm data = .ofBits (p1 &&& 0x7f) := by
  rw [h.eq]
  rfl

theorem Begins.read (h : Begins data p0 p1 rest) (hlen : (lenForm data).size ≤ data.length) :
    (lenForm data).Fits ((lenForm data).read data) ∧
      data.take (lenForm data).size =
        p0 :: (lenForm data).bytes ((lenForm data).read data) := by
  have hread := @LenForm.bytes_read p0 p1 rest _ h.mask h.form_eq.symm
  rw [← h.eq] at hread
  exact hread hlen

/-- As many bytes as the header counts make a frame. -/
theorem Begins.validFrame (h : Begins data p0 p1 rest) (hlen : data.length = frameSize data) :
    ValidFrame data := by
  unfold frameSize at hlen
  obtain ⟨hfits, htake⟩ := h.read (by omega)
  generalize lenForm data = form at hlen hfits htake
  have hpayload : (data.drop (form.size + 4)).length = form.read data := by
    rw [List.length_drop]
    omega
  refine ⟨p0, form, (data.drop form.size).take 4, data.drop (form.size + 4), h.opcode, ?_, ?_, ?_⟩
  · rw [List.length_take, List.length_drop]
    omega
  · rw [hpayload]
    exact hfits
  · rw [hpayload, ← htake, ← List.drop_drop, List.append_assoc, List.take_append_drop,
      List.take_append_drop]

/-- A frame has the length that its header counts. -/
theorem ValidFrame.length_eq {bytes : List UInt8} (h : ValidFrame bytes) :
    bytes.length = frameSize bytes := by
  obtain ⟨p0, form, masks, payload, -, hmasks, hfits, rfl⟩ := h
  rw [List.append_assoc]
  obtain ⟨hread, hform⟩ := LenForm.read_bytes hfits p0 (masks ++ payload)
  have hbytes := form.length_bytes payload.length
  unfold frameSize lenForm
  rw [hform, hread]
  simp only [List.length_append, List.length_cons]
  omega

theorem Begins.append (h : Begins data p0 p1 rest) (more : List UInt8) :
    Begins (data ++ more) p0 p1 (rest ++ more) := ⟨by rw [h.eq]; rfl, h.opcode, h.mask⟩

/-- With the header received, what is missing is the rest of the bytes it counts. -/
theorem Begins.extends_iff (h : Begins data p0 p1 rest)
    (hlen : (lenForm data).size ≤ data.length) :
    Extends data ↔ data.length < frameSize data := by
  constructor
  · rintro ⟨bytes, hvalid, ⟨more, rfl⟩, hne⟩
    have hlength := hvalid.length_eq
    rw [(header_append hlen more).2, List.length_append] at hlength
    have hmore : 0 < more.length := by
      rw [List.length_pos_iff]
      rintro rfl
      exact hne (List.append_nil _).symm
    omega
  · intro hless
    obtain ⟨more, hmore⟩ : ∃ more : List UInt8, more.length = frameSize data - data.length :=
      ⟨List.replicate _ 0, List.length_replicate⟩
    refine ⟨data ++ more, (h.append more).validFrame ?_, List.prefix_append _ _, fun hsame => ?_⟩
    · rw [(header_append hlen more).2, List.length_append]
      omega
    · have hlength := congrArg List.length hsame
      rw [List.length_append] at hlength
      omega

/-- A part of a header is the beginning of a frame. -/
theorem Begins.extends_of_short (h : Begins data p0 p1 rest)
    (hlen : data.length < (lenForm data).size) : Extends data := by
  obtain ⟨more, hmore⟩ : ∃ more : List UInt8, more.length = (lenForm data).size - data.length :=
    ⟨List.replicate _ 0, List.length_replicate⟩
  have hform : lenForm (data ++ more) = lenForm data := by
    rw [(h.append more).form_eq, h.form_eq]
  have hfull : (lenForm (data ++ more)).size = (data ++ more).length := by
    rw [hform, List.length_append]
    omega
  obtain ⟨bytes, hvalid, hbefore, -⟩ := ((h.append more).extends_iff hfull.le).mpr (by
    unfold frameSize
    omega)
  refine ⟨bytes, hvalid, (List.prefix_append _ _).trans hbefore, ?_⟩
  rintro rfl
  have hless := hbefore.length_le
  rw [← hfull, hform] at hless
  omega

end Begun

/-! ## The decoder in one form -/

section Decoder

variable {σ : Type} {clt : WsClt σ} {data : List UInt8} {p0 p1 : UInt8} {rest : List UInt8}

/-- Whatever the form of the length, the decoder waits for the header and goes on with the masks. -/
theorem Begins.decodePkg (h : Begins data p0 p1 rest) (hupgrade : clt.upgrade = true) :
    ∃ frame : WsFrame, clt.decodePkg data =
      if data.length < (lenForm data).size then ⟨{ clt with frame := frame }, 0, data⟩
      else { clt with frame := frame }.decodePayload frame (lenForm data).size
        ((lenForm data).read data) data := by
  refine ⟨⟨p0 &&& 0x80, p0 &&& 0x0f, 0, 0⟩, ?_⟩
  have hform := h.form_eq
  rw [hform, h.eq]
  unfold WsClt.decodePkg
  rw [if_neg (by rw [hupgrade]; decide)]
  dsimp only
  rw [if_neg (by rw [h.opcode]; decide), if_neg h.mask]
  rcases LenForm.second_cases p1 h.mask with ⟨hkind, hlt⟩ | ⟨hkind, hp1⟩ | ⟨hkind, hp1⟩
  · rw [hkind, if_pos (show p1 &&& 0x7f < 126 from hlt), if_neg (by simp [LenForm.size])]
    rfl
  · rw [hkind, hp1, if_neg (by decide), if_pos (by decide)]
    rfl
  · rw [hkind, hp1, if_neg (by decide), if_neg (by decide)]
    rfl

/-- Whatever the form, the bytes of the header are read once they are there. -/
theorem Begins.accesses (h : Begins data p0 p1 rest) :
    ∃ header : List Span, (∀ span ∈ header, span.first + span.count ≤ data.length) ∧
      WsClt.accesses data = header ++
        if data.length < (lenForm data).size then []
        else WsClt.payloadAccesses (lenForm data).size
          ((lenForm data).read data) data := by
  have hform := h.form_eq
  have htwo : 2 ≤ data.length := by simp [h.eq]
  have hfirst : ∀ span ∈ [(⟨0, 1⟩ : Span), ⟨1, 1⟩], span.first + span.count ≤ data.length := by
    simpa using ⟨by omega, htwo⟩
  have haccesses : WsClt.accesses data = if p1 &&& 0x7f < 126 then [⟨0, 1⟩, ⟨1, 1⟩] ++
        WsClt.payloadAccesses 2 (p1 &&& 0x7f).toNat data
      else if p1 &&& 0x7f = 126 then
        if data.length < 4 then [⟨0, 1⟩, ⟨1, 1⟩]
        else [⟨0, 1⟩, ⟨1, 1⟩, ⟨2, 2⟩] ++
          WsClt.payloadAccesses 4 (ByteOrder.big.decode ((data.drop 2).take 2)) data
      else
        if data.length < 10 then [⟨0, 1⟩, ⟨1, 1⟩]
        else [⟨0, 1⟩, ⟨1, 1⟩, ⟨2, 8⟩] ++
          WsClt.payloadAccesses 10 (ByteOrder.big.decode ((data.drop 2).take 8)) data := by
    rw [h.eq]
    unfold WsClt.accesses
    dsimp only
    rw [if_neg (by rw [h.opcode]; decide), if_neg h.mask]
  rw [hform, haccesses]
  rcases LenForm.second_cases p1 h.mask with ⟨hkind, hlt⟩ | ⟨hkind, hp1⟩ | ⟨hkind, hp1⟩
  · rw [hkind, if_pos (show p1 &&& 0x7f < 126 from hlt),
      if_neg (show ¬data.length < LenForm.short.size from not_lt.mpr htwo)]
    refine ⟨_, hfirst, ?_⟩
    rw [h.eq]
    rfl
  · rw [hkind, hp1, if_neg (by decide), if_pos (by decide)]
    by_cases hlen : data.length < 4
    · rw [if_pos hlen, if_pos (show data.length < LenForm.medium.size from hlen)]
      exact ⟨_, hfirst, (List.append_nil _).symm⟩
    · rw [if_neg hlen, if_neg (show ¬data.length < LenForm.medium.size from hlen)]
      refine ⟨_, ?_, rfl⟩
      simpa using ⟨by omega, htwo, by omega⟩
  · rw [hkind, hp1, if_neg (by decide), if_neg (by decide)]
    by_cases hlen : data.length < 10
    · rw [if_pos hlen, if_pos (show data.length < LenForm.long.size from hlen)]
      exact ⟨_, hfirst, (List.append_nil _).symm⟩
    · rw [if_neg hlen, if_neg (show ¬data.length < LenForm.long.size from hlen)]
      refine ⟨_, ?_, rfl⟩
      simpa using ⟨by omega, htwo, by omega⟩

/-- The masks and the payload lie in the data, or do not. -/
theorem payloadAccesses_inside (pkgSize payloadLen : ℕ) (data : List UInt8) :
    (∀ span ∈ WsClt.payloadAccesses pkgSize payloadLen data, span.first + span.count ≤
      data.length) ↔
      pkgSize + 4 ≤ data.length ∧
        (data.length < (pkgSize + 4 + payloadLen) % 2 ^ 64 ∨
          pkgSize + 4 + payloadLen ≤ data.length) := by
  unfold WsClt.payloadAccesses
  dsimp only
  by_cases hless : data.length < (pkgSize + 4 + payloadLen) % 2 ^ 64
  · rw [if_pos hless, List.forall_mem_singleton]
    exact (and_iff_left (Or.inl hless)).symm
  · rw [if_neg hless, List.forall_mem_cons, List.forall_mem_singleton]
    exact and_congr_right fun _ => (or_iff_right hless).symm

/-- What does not begin as a frame does is refused. -/
theorem decodePkg_refused (hupgrade : clt.upgrade = true)
    (hbad : isGoodOpcode (p0 &&& 0x0f) = false ∨ p1 &&& 0x80 = 0) :
    (clt.decodePkg (p0 :: p1 :: rest)).ret = -1 ∧
      ∀ span ∈ WsClt.accesses (p0 :: p1 :: rest), span.first + span.count ≤
        (p0 :: p1 :: rest).length := by
  unfold WsClt.decodePkg WsClt.accesses
  rw [if_neg (by rw [hupgrade]; decide)]
  dsimp only
  by_cases hgood : isGoodOpcode (p0 &&& 0x0f) = false
  · rw [if_pos hgood, if_pos hgood]
    exact ⟨rfl, by simp⟩
  · have hmask := hbad.resolve_left hgood
    rw [if_neg hgood, if_neg hgood, if_pos hmask, if_pos hmask]
    exact ⟨rfl, by simp⟩

/-- With the header received, all depends on the size of the frame. -/
theorem Begins.bounded_iff (h : Begins data p0 p1 rest) (hupgrade : clt.upgrade = true)
    (hlen : (lenForm data).size ≤ data.length) :
    BoundedFrame clt data ↔ (lenForm data).size + 4 ≤ data.length ∧
      frameSize data < 2 ^ 64 ∧
      (frameSize data ≤ data.length → frameSize data < 2 ^ 31 ∨
        2 ^ 31 ≤ frameSize data % 2 ^ 32) := by
  obtain ⟨frame, hdecode⟩ := h.decodePkg hupgrade
  obtain ⟨header, hheader, haccesses⟩ := h.accesses
  rw [if_neg (not_lt.mpr hlen)] at hdecode haccesses
  have hinside : (∀ span ∈ WsClt.accesses data, span.first + span.count ≤ data.length) ↔
      (lenForm data).size + 4 ≤ data.length ∧
        (data.length < frameSize data % 2 ^ 64 ∨ frameSize data ≤ data.length) := by
    rw [haccesses, List.forall_mem_append, payloadAccesses_inside]
    exact and_iff_right hheader
  have hextends := h.extends_iff hlen
  have hread : (lenForm data).read data < 2 ^ 64 := by
    have hfits := (h.read hlen).1
    cases hform : lenForm data <;> rw [hform] at hfits <;>
      simp only [LenForm.Fits] at hfits <;> omega
  have hsize : frameSize data = (lenForm data).size + 4 +
    (lenForm data).read data := rfl
  unfold WsClt.decodePayload at hdecode
  dsimp only at hdecode
  rw [← hsize] at hdecode
  by_cases hmore : data.length < frameSize data % 2 ^ 64
  · -- more is asked for: the bytes are left alone, and only the masks may be missing
    rw [if_pos hmore] at hdecode
    constructor
    · intro hbounded
      obtain ⟨hmasks, -⟩ := hinside.mp hbounded.inside
      refine ⟨hmasks, ?_, fun hle => ?_⟩
      · omega
      · omega
    · rintro ⟨hmasks, hfits, -⟩
      refine ⟨hinside.mpr ⟨hmasks, Or.inl hmore⟩, fun hpos => ?_, fun _ => ⟨?_, hextends.mpr ?_⟩⟩
      · rw [hdecode] at hpos
        exact absurd hpos (lt_irrefl _)
      · rw [hdecode]
      · omega
  · rw [if_neg hmore] at hdecode
    have hret : (clt.decodePkg data).ret = ((frameSize data % 2 ^ 64 : ℕ) : ℤ).bmod (2 ^ 32) := by
      rw [hdecode]
    have hframe : (clt.decodePkg data).privdata.frame.payloadLen = (lenForm data).read data ∧
        (clt.decodePkg data).privdata.frame.payload = (lenForm data).size + 4 := by
      rw [hdecode]
      exact ⟨rfl, rfl⟩
    rw [Int.bmod_def] at hret
    have hlow : (lenForm data).size ≤ 10 := by cases lenForm data <;> decide
    constructor
    · intro hbounded
      obtain ⟨hmasks, hinside⟩ := hinside.mp hbounded.inside
      have hwhole := hinside.resolve_left hmore
      have hsound := hbounded.size
      rw [hframe.1, hframe.2] at hsound
      have hasked : (clt.decodePkg data).ret ≠ 0 := fun hzero =>
        absurd (hextends.mp (hbounded.more hzero).2) (not_lt.mpr hwhole)
      refine ⟨hmasks, ?_, fun _ => ?_⟩
      · by_contra hover
        have hwrap : frameSize data % 2 ^ 64 = frameSize data - 2 ^ 64 := by omega
        rw [hwrap] at hret
        split_ifs at hret <;> omega
      · split_ifs at hret <;> omega
    · rintro ⟨hmasks, hfits, hint⟩
      rw [Nat.mod_eq_of_lt hfits] at hret hmore
      have hwhole := hint (not_lt.mp hmore)
      refine ⟨hinside.mpr ⟨hmasks, Or.inr (not_lt.mp hmore)⟩, fun hpos => ?_, fun hzero => ?_⟩
      · rw [hframe.1, hframe.2]
        split_ifs at hret <;> omega
      · split_ifs at hret <;> omega

/-- A part of a header is left alone, and more is asked for. -/
theorem Begins.boundedFrame_of_short (h : Begins data p0 p1 rest) (hupgrade : clt.upgrade = true)
    (hlen : data.length < (lenForm data).size) : BoundedFrame clt data := by
  obtain ⟨frame, hdecode⟩ := h.decodePkg hupgrade
  obtain ⟨header, hheader, haccesses⟩ := h.accesses
  rw [if_pos hlen] at hdecode haccesses
  refine ⟨?_, fun hpos => ?_, fun _ => ⟨?_, h.extends_of_short hlen⟩⟩
  · rw [haccesses, List.append_nil]
    exact hheader
  · rw [hdecode] at hpos
    exact absurd hpos (lt_irrefl _)
  · rw [hdecode]

/-- The first byte alone shows if there is a frame. -/
theorem extends_singleton : Extends [p0] ↔ isGoodOpcode (p0 &&& 0x0f) = true := by
  constructor
  · rintro ⟨bytes, ⟨q0, form, masks, payload, hgood, -, -, rfl⟩, ⟨more, hmore⟩, -⟩
    obtain rfl : p0 = q0 := (List.cons.inj hmore).1
    exact hgood
  · intro hgood
    refine ⟨[p0, 0x80, 0, 0, 0, 0], ⟨p0, .short, [0, 0, 0, 0], [], hgood, rfl, ?_, rfl⟩, ⟨_, rfl⟩,
      nofun⟩
    show 0 < 126
    norm_num

theorem extends_nil : Extends [] :=
  ⟨[0, 0x80, 0, 0, 0, 0], ⟨0, .short, [0, 0, 0, 0], [], by decide, rfl, show 0 < 126 by norm_num, rfl⟩,
    List.nil_prefix, nofun⟩

/-- **The decoder is right exactly of what is decodable.** -/
theorem boundedFrame_iff (hupgrade : clt.upgrade = true) (data : List UInt8) :
    BoundedFrame clt data ↔ Decodable data := by
  have hzero : ∀ data, clt.decodePkg data = ⟨clt, 0, data⟩ → WsClt.accesses data = [] →
      (BoundedFrame clt data ↔ Extends data) := by
    intro data hdecode haccesses
    constructor
    · exact fun hbounded => (hbounded.more (by rw [hdecode])).2
    · refine fun hextends =>
        ⟨by rw [haccesses]; exact nofun, fun hpos => ?_, fun _ => ⟨by rw [hdecode], hextends⟩⟩
      rw [hdecode] at hpos
      exact absurd hpos (lt_irrefl _)
  have hopen : ¬clt.upgrade = false := by
    rw [hupgrade]
    decide
  match data with
  | [] =>
    refine (hzero [] ?_ rfl).trans (iff_of_true extends_nil trivial)
    unfold WsClt.decodePkg
    rw [if_neg hopen]
  | [p0] =>
    refine (hzero [p0] ?_ rfl).trans extends_singleton
    unfold WsClt.decodePkg
    rw [if_neg hopen]
  | p0 :: p1 :: rest =>
    by_cases hbad : isGoodOpcode (p0 &&& 0x0f) = false ∨ p1 &&& 0x80 = 0
    · obtain ⟨hret, hinside⟩ := @decodePkg_refused _ clt p0 p1 rest hupgrade hbad
      refine iff_of_true ⟨hinside, fun hpos => ?_, fun hzero => ?_⟩ ?_
      · rw [hret] at hpos
        exact absurd hpos (by norm_num)
      · rw [hret] at hzero
        exact absurd hzero (by norm_num)
      · exact hbad.imp id Or.inl
    · obtain ⟨hgood, hmask⟩ := not_or.mp hbad
      have h : Begins (p0 :: p1 :: rest) p0 p1 rest :=
        ⟨rfl, Bool.eq_true_of_not_eq_false hgood, hmask⟩
      dsimp only [Decodable]
      rw [or_iff_right hgood, or_iff_right hmask]
      by_cases hlen : (p0 :: p1 :: rest).length < (lenForm (p0 :: p1 :: rest)).size
      · exact iff_of_true (h.boundedFrame_of_short hupgrade hlen) (Or.inl hlen)
      · rw [or_iff_right hlen]
        exact h.bounded_iff hupgrade (not_lt.mp hlen)

end Decoder

/-! ## Frames that leave the buffer -/

/-- A text whose length is 2 ^ 64 - 1. -/
def wrappedFrame : List UInt8 := [0x81, 0xff] ++ List.replicate 8 0xff ++ [1, 2, 3, 4]

theorem boundedFrame_iff_text :
    BoundedFrame (.start ()) [0x81, 0x82, 1, 2, 3, 4, 0x69, 0x6b] ∧ ¬BoundedFrame (.start ()) [0x81, 0x82] :=
  ⟨(boundedFrame_iff rfl _).mpr (by unfold Decodable; decide),
    fun hbounded => absurd ((boundedFrame_iff rfl _).mp hbounded) (by unfold Decodable; decide)⟩

/-- The loop over the payload goes on for as long. -/
theorem wrappedFrame_leaves :
    WsClt.accesses wrappedFrame = [⟨0, 1⟩, ⟨1, 1⟩, ⟨2, 8⟩, ⟨10, 4⟩, ⟨14, 2 ^ 64 - 1⟩] ∧
      ¬∀ data, BoundedFrame (.start ()) data := by
  have haccesses : WsClt.accesses wrappedFrame =
      [⟨0, 1⟩, ⟨1, 1⟩, ⟨2, 8⟩, ⟨10, 4⟩, ⟨14, 2 ^ 64 - 1⟩] := by
    decide +kernel
  refine ⟨haccesses, fun hall => ?_⟩
  have hinside := (hall wrappedFrame).inside ⟨14, 2 ^ 64 - 1⟩ (by rw [haccesses]; simp)
  exact absurd hinside (by decide)

end ViabtcExchange
