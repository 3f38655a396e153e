import ViabtcExchange.Rpc

/-!
# The size that `rpc_decode` reports (`ut_rpc.c`)

A header counts 36 bytes and then `ext_size` and `body_size` more. `rpc_decode` adds the three up in
a `uint32_t`, while `on_recv_pkg` goes by the two fields. With a `body_size` near 2 ^ 32 the sum
begins again at 0, so a few bytes make a package whose body lies behind what was received.

**Theorem (`decodedWhole_iff`).** That is all that can go wrong: what `rpc_decode` reports is right
exactly of the data whose header does not count 2 ^ 32 bytes or more that way (`WrapsAround`).
-/

namespace ViabtcExchange

/-! ## The checksum -/

/-- `crc_c`. -/
def crcC : List UInt32 :=
  [0x00000000, 0x77073096, 0xee0e612c, 0x990951ba, 0x076dc419, 0x706af48f, 0xe963a535, 0x9e6495a3,
   0x0edb8832, 0x79dcb8a4, 0xe0d5e91e, 0x97d2d988, 0x09b64c2b, 0x7eb17cbd, 0xe7b82d07, 0x90bf1d91,
   0x1db71064, 0x6ab020f2, 0xf3b97148, 0x84be41de, 0x1adad47d, 0x6ddde4eb, 0xf4d4b551, 0x83d385c7,
   0x136c9856, 0x646ba8c0, 0xfd62f97a, 0x8a65c9ec, 0x14015c4f, 0x63066cd9, 0xfa0f3d63, 0x8d080df5,
   0x3b6e20c8, 0x4c69105e, 0xd56041e4, 0xa2677172, 0x3c03e4d1, 0x4b04d447, 0xd20d85fd, 0xa50ab56b,
   0x35b5a8fa, 0x42b2986c, 0xdbbbc9d6, 0xacbcf940, 0x32d86ce3, 0x45df5c75, 0xdcd60dcf, 0xabd13d59,
   0x26d930ac, 0x51de003a, 0xc8d75180, 0xbfd06116, 0x21b4f4b5, 0x56b3c423, 0xcfba9599, 0xb8bda50f,
   0x2802b89e, 0x5f058808, 0xc60cd9b2, 0xb10be924, 0x2f6f7c87, 0x58684c11, 0xc1611dab, 0xb6662d3d,
   0x76dc4190, 0x01db7106, 0x98d220bc, 0xefd5102a, 0x71b18589, 0x06b6b51f, 0x9fbfe4a5, 0xe8b8d433,
   0x7807c9a2, 0x0f00f934, 0x9609a88e, 0xe10e9818, 0x7f6a0dbb, 0x086d3d2d, 0x91646c97, 0xe6635c01,
   0x6b6b51f4, 0x1c6c6162, 0x856530d8, 0xf262004e, 0x6c0695ed, 0x1b01a57b, 0x8208f4c1, 0xf50fc457,
   0x65b0d9c6, 0x12b7e950, 0x8bbeb8ea, 0xfcb9887c, 0x62dd1ddf, 0x15da2d49, 0x8cd37cf3, 0xfbd44c65,
   0x4db26158, 0x3ab551ce, 0xa3bc0074, 0xd4bb30e2, 0x4adfa541, 0x3dd895d7, 0xa4d1c46d, 0xd3d6f4fb,
   0x4369e96a, 0x346ed9fc, 0xad678846, 0xda60b8d0, 0x44042d73, 0x33031de5, 0xaa0a4c5f, 0xdd0d7cc9,
   0x5005713c, 0x270241aa, 0xbe0b1010, 0xc90c2086, 0x5768b525, 0x206f85b3, 0xb966d409, 0xce61e49f,
   0x5edef90e, 0x29d9c998, 0xb0d09822, 0xc7d7a8b4, 0x59b33d17, 0x2eb40d81, 0xb7bd5c3b, 0xc0ba6cad,
   0xedb88320, 0x9abfb3b6, 0x03b6e20c, 0x74b1d29a, 0xead54739, 0x9dd277af, 0x04db2615, 0x73dc1683,
   0xe3630b12, 0x94643b84, 0x0d6d6a3e, 0x7a6a5aa8, 0xe40ecf0b, 0x9309ff9d, 0x0a00ae27, 0x7d079eb1,
   0xf00f9344, 0x8708a3d2, 0x1e01f268, 0x6906c2fe, 0xf762575d, 0x806567cb, 0x196c3671, 0x6e6b06e7,
   0xfed41b76, 0x89d32be0, 0x10da7a5a, 0x67dd4acc, 0xf9b9df6f, 0x8ebeeff9, 0x17b7be43, 0x60b08ed5,
   0xd6d6a3e8, 0xa1d1937e, 0x38d8c2c4, 0x4fdff252, 0xd1bb67f1, 0xa6bc5767, 0x3fb506dd, 0x48b2364b,
   0xd80d2bda, 0xaf0a1b4c, 0x36034af6, 0x41047a60, 0xdf60efc3, 0xa867df55, 0x316e8eef, 0x4669be79,
   0xcb61b38c, 0xbc66831a, 0x256fd2a0, 0x5268e236, 0xcc0c7795, 0xbb0b4703, 0x220216b9, 0x5505262f,
   0xc5ba3bbe, 0xb2bd0b28, 0x2bb45a92, 0x5cb36a04, 0xc2d7ffa7, 0xb5d0cf31, 0x2cd99e8b, 0x5bdeae1d,
   0x9b64c2b0, 0xec63f226, 0x756aa39c, 0x026d930a, 0x9c0906a9, 0xeb0e363f, 0x72076785, 0x05005713,
   0x95bf4a82, 0xe2b87a14, 0x7bb12bae, 0x0cb61b38, 0x92d28e9b, 0xe5d5be0d, 0x7cdcefb7, 0x0bdbdf21,
   0x86d3d2d4, 0xf1d4e242, 0x68ddb3f8, 0x1fda836e, 0x81be16cd, 0xf6b9265b, 0x6fb077e1, 0x18b74777,
   0x88085ae6, 0xff0f6a70, 0x66063bca, 0x11010b5c, 0x8f659eff, 0xf862ae69, 0x616bffd3, 0x166ccf45,
   0xa00ae278, 0xd70dd2ee, 0x4e048354, 0x3903b3c2, 0xa7672661, 0xd06016f7, 0x4969474d, 0x3e6e77db,
   0xaed16a4a, 0xd9d65adc, 0x40df0b66, 0x37d83bf0, 0xa9bcae53, 0xdebb9ec5, 0x47b2cf7f, 0x30b5ffe9,
   0xbdbdf21c, 0xcabac28a, 0x53b39330, 0x24b4a3a6, 0xbad03605, 0xcdd70693, 0x54de5729, 0x23d967bf,
   0xb3667a2e, 0xc4614ab8, 0x5d681b02, 0x2a6f2b94, 0xb40bbe37, 0xc30c8ea1, 0x5a05df1b, 0x2d02ef8d]

/-- `CRC32C`, for one more byte. -/
def crc32Step (c : UInt32) (d : UInt8) : UInt32 :=
  (c >>> 8) ^^^ crcC.getD ((c ^^^ d.toUInt32) &&& 0xFF).toNat 0

/-- `generate_crc32c`. -/
def generateCrc32c (buffer : List UInt8) : UInt32 := ~~~buffer.foldl crc32Step (~~~0)

/-- The check value of the usual CRC-32. -/
example : generateCrc32c [0x31, 0x32, 0x33, 0x34, 0x35, 0x36, 0x37, 0x38, 0x39] = 0xcbf43926 := by
  decide +kernel

section Size

variable (host : ByteOrder) (crc : List UInt8 → UInt32)

/-! ## What a header says -/

/-- The numbers of the header, over ℕ. -/
def statedSize (data : List UInt8) : ℕ :=
  36 + (le16toh host (RpcHead.load host data).extSize).toNat +
    (le32toh host (RpcHead.load host data).bodySize).toNat

/-- Its checksum, of the first `n` bytes. -/
def ChecksumOf (data : List UInt8) (n : ℕ) : Prop :=
  le32toh host (RpcHead.load host data).crc32 =
    crc (({ RpcHead.load host data with crc32 := 0 }.store host ++ data.drop 36).take n)

/-- What `rpc_decode` returns is right. -/
structure DecodedWhole (data : List UInt8) : Prop where
  /-- A size is that of the package, which has been received. -/
  size : 0 < (rpcDecode host crc data).1 →
    (rpcDecode host crc data).1 = statedSize host data ∧ (rpcDecode host crc data).1 ≤ data.length
  /-- `ext` and `body` of `on_recv_pkg` lie in the bytes it is given. -/
  slices : 0 < (rpcDecode host crc data).1 →
    (36 + (RpcHead.load host (rpcDecode host crc data).2).extSize.toNat +
      (RpcHead.load host (rpcDecode host crc data).2).bodySize.toNat : ℤ) ≤ (rpcDecode host crc data).1
  checksum : 0 < (rpcDecode host crc data).1 →
    ChecksumOf host crc data (rpcDecode host crc data).1.toNat
  /-- More bytes are wanted only for what is not there yet. -/
  more : (rpcDecode host crc data).1 = 0 →
    data.length < 36 ∨ data.length < statedSize host data

/-- The size of the package begins again at 0, and what is left of it has been received. -/
structure WrapsAround (data : List UInt8) : Prop where
  head : 36 ≤ data.length
  magic : le32toh host (RpcHead.load host data).magic = rpcPkgMagic
  wraps : 2 ^ 32 ≤ statedSize host data
  received : statedSize host data - 2 ^ 32 ≤ data.length
  checksum : ChecksumOf host crc data (statedSize host data - 2 ^ 32)
  /-- Nothing at all is left of just 2 ^ 32 bytes: that is a wish for more. -/
  asked : statedSize host data = 2 ^ 32 → 2 ^ 32 ≤ data.length

/-! ## The sum in 32 bits -/

section Sum

variable {host} {data : List UInt8}

theorem pkgSize_eq : (rpcPkgHeadSize + (le16toh host (RpcHead.load host data).extSize).toUInt32 +
    le32toh host (RpcHead.load host data).bodySize).toNat = statedSize host data % 2 ^ 32 := by
  have hhead : rpcPkgHeadSize.toNat = 36 := rfl
  rw [UInt32.toNat_add, UInt32.toNat_add, UInt16.toNat_toUInt32, hhead]
  unfold statedSize
  omega

/-- The sum begins again at most once, and then little of it is left. -/
theorem statedSize_lt : 36 ≤ statedSize host data ∧ statedSize host data < 2 ^ 32 + 2 ^ 17 := by
  have hext := (le16toh host (RpcHead.load host data).extSize).toNat_lt
  have hbody := (le32toh host (RpcHead.load host data).bodySize).toNat_lt
  unfold statedSize
  omega

theorem WrapsAround.mod_eq {crc : List UInt8 → UInt32} (h : WrapsAround host crc data) :
    statedSize host data % 2 ^ 32 = statedSize host data - 2 ^ 32 := by
  have hwraps := h.wraps
  have hlt := (@statedSize_lt host data).2
  omega

end Sum

/-! ## What `rpc_decode` returns -/

section Returns

variable {host crc} {data : List UInt8}

/-- The header and the checksum are those of a package of `n` bytes. -/
structure Accepted (host : ByteOrder) (crc : List UInt8 → UInt32) (data : List UInt8) (n : ℕ) : Prop where
  head : 36 ≤ data.length
  magic : le32toh host (RpcHead.load host data).magic = rpcPkgMagic
  received : n ≤ data.length
  checksum : ChecksumOf host crc data n

/-- A package is accepted by its size in 32 bits, and the header is left in the order of the
host. -/
theorem Accepted.rpcDecode (h : Accepted host crc data (statedSize host data % 2 ^ 32)) :
    (rpcDecode host crc data).1 = ((statedSize host data % 2 ^ 32 : ℕ) : ℤ).bmod (2 ^ 32) ∧
      36 + (RpcHead.load host (rpcDecode host crc data).2).extSize.toNat +
        (RpcHead.load host (rpcDecode host crc data).2).bodySize.toNat = statedSize host data := by
  have hhead : rpcPkgHeadSize.toNat = 36 := rfl
  have hcrc := h.checksum
  unfold ChecksumOf at hcrc
  rw [ViabtcExchange.rpcDecode, if_neg (by rw [hhead]; exact not_lt.mpr h.head)]
  dsimp only
  rw [pkgSize_eq, if_neg (not_not.mpr h.magic), if_neg (not_lt.mpr h.received),
    if_neg (not_not.mpr hcrc)]
  dsimp only
  rw [toInt_toInt32, pkgSize_eq, RpcHead.load_store]
  exact ⟨rfl, rfl⟩

/-- Otherwise it returns no size. -/
theorem rpcDecode_of_not_accepted (h : ¬Accepted host crc data (statedSize host data % 2 ^ 32)) :
    (rpcDecode host crc data).1 < 0 ∨ (rpcDecode host crc data).1 = 0 ∧
      (data.length < 36 ∨ data.length < statedSize host data) := by
  have hhead : rpcPkgHeadSize.toNat = 36 := rfl
  unfold rpcDecode
  dsimp only
  split_ifs with hshort hmagic hsize hcrc
  · exact Or.inr ⟨rfl, Or.inl (hhead ▸ hshort)⟩
  · exact Or.inl (by norm_num)
  · refine Or.inr ⟨rfl, Or.inr ?_⟩
    rw [pkgSize_eq] at hsize
    exact hsize.trans_le (Nat.mod_le _ _)
  · exact Or.inl (by norm_num)
  · rw [pkgSize_eq] at hsize hcrc
    exact absurd ⟨not_lt.mp (hhead ▸ hshort), not_not.mp hmagic, not_lt.mp hsize, not_not.mp hcrc⟩ h

theorem DecodedWhole.of_no_size
    (h : (rpcDecode host crc data).1 < 0 ∨ (rpcDecode host crc data).1 = 0 ∧
    (data.length < 36 ∨ data.length < statedSize host data)) : DecodedWhole host crc data := by
  rcases h with hneg | ⟨hzero, hmore⟩
  · exact ⟨fun hpos => by omega, fun hpos => by omega, fun hpos => by omega, fun hzero => by omega⟩
  · exact ⟨fun hpos => by omega, fun hpos => by omega, fun hpos => by omega, fun _ => hmore⟩

/-- The `int` of a size. -/
theorem bmod_cases {n : ℕ} (hn : n < 2 ^ 32) :
    (n : ℤ).bmod (2 ^ 32) = n ∧ n < 2 ^ 31 ∨ (n : ℤ).bmod (2 ^ 32) < 0 ∧ 2 ^ 31 ≤ n := by
  rw [Int.bmod_def]
  split_ifs <;> omega

/-- **What `rpc_decode` returns is right exactly where the size does not begin again.** -/
theorem decodedWhole_iff (host : ByteOrder) (crc : List UInt8 → UInt32) (data : List UInt8) :
    DecodedWhole host crc data ↔ ¬WrapsAround host crc data := by
  obtain ⟨hlow, hhigh⟩ := @statedSize_lt host data
  have hmod : statedSize host data % 2 ^ 32 < 2 ^ 32 := Nat.mod_lt _ (by norm_num)
  constructor
  · intro h hwraps
    have hwrap := hwraps.wraps
    have haccepted : Accepted host crc data (statedSize host data % 2 ^ 32) := by
      rw [hwraps.mod_eq]
      exact ⟨hwraps.head, hwraps.magic, hwraps.received, hwraps.checksum⟩
    obtain ⟨hret, -⟩ := haccepted.rpcDecode
    rw [hwraps.mod_eq] at hmod hret
    rcases bmod_cases hmod with ⟨hsame, -⟩ | ⟨-, hlarge⟩
    · rw [hsame] at hret
      by_cases hzero : statedSize host data = 2 ^ 32
      · have hasked := hwraps.asked hzero
        rcases h.more (by rw [hret, hzero]; norm_num) with hless | hless <;> omega
      · have hsize := (h.size (by rw [hret]; omega)).1
        omega
    · omega
  · intro hwraps
    by_cases haccepted : Accepted host crc data (statedSize host data % 2 ^ 32)
    · obtain ⟨hret, hfields⟩ := haccepted.rpcDecode
      have hreceived := haccepted.received
      rcases bmod_cases hmod with ⟨hsame, -⟩ | ⟨hneg, -⟩
      · rw [hsame] at hret
        by_cases hover : statedSize host data < 2 ^ 32
        · rw [Nat.mod_eq_of_lt hover] at hret hreceived
          have hchecksum := haccepted.checksum
          rw [Nat.mod_eq_of_lt hover] at hchecksum
          refine ⟨fun _ => ⟨hret, by omega⟩, fun _ => by omega, fun _ => ?_, fun hzero => by omega⟩
          rw [hret, Int.toNat_natCast]
          exact hchecksum
        · -- only a size of just 2 ^ 32 is harmless, and it asks for more
          have hleft : statedSize host data % 2 ^ 32 = statedSize host data - 2 ^ 32 := by omega
          rw [hleft] at haccepted hret
          have hexact : statedSize host data = 2 ^ 32 ∧ data.length < 2 ^ 32 := by
            by_contra hnot
            refine hwraps ⟨haccepted.head, haccepted.magic, not_lt.mp hover, haccepted.received,
              haccepted.checksum, fun hzero => ?_⟩
            exact not_lt.mp fun hless => hnot ⟨hzero, hless⟩
          rw [hexact.1] at hret
          exact .of_no_size (Or.inr ⟨hret, Or.inr (by omega)⟩)
      · exact .of_no_size (Or.inl (hret ▸ hneg))
    · exact .of_no_size (rpcDecode_of_not_accepted haccepted)

end Returns

end Size

/-- A header with a `body_size` of 2 ^ 32 - 32: four bytes are left of the package, "beep". -/
def wrappedHeader : List UInt8 :=
  [0x62, 0x65, 0x65, 0x70, 0, 0, 0, 0, 0, 0, 0, 0, 0, 0] ++
    ByteOrder.little.encode 4 (generateCrc32c [0x62, 0x65, 0x65, 0x70]).toNat ++
    [0, 0, 0, 0, 0, 0, 0, 0, 0, 0, 0, 0, 0xe0, 0xff, 0xff, 0xff, 0, 0]

theorem wrappedHeader_accepted : (rpcDecode .little generateCrc32c wrappedHeader).1 = 4 ∧
    statedSize .little wrappedHeader = 2 ^ 32 + 4 ∧
      ¬∀ host crc data, DecodedWhole host crc data := by
  have hret : (rpcDecode .little generateCrc32c wrappedHeader).1 = 4 := by decide +kernel
  have hsize : statedSize .little wrappedHeader = 2 ^ 32 + 4 := by decide +kernel
  refine ⟨hret, hsize, fun hall => ?_⟩
  have hright := ((hall .little generateCrc32c wrappedHeader).size (by rw [hret]; norm_num)).1
  rw [hret, hsize] at hright
  norm_num at hright

end ViabtcExchange
