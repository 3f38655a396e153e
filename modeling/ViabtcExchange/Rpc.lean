import ViabtcExchange.NwRead

/-!
# RPC packages

`ut_rpc.c`: a package is a header of 36 bytes, `ext` and `body`. On the wire the numbers of the
header have the lowest byte first, and `crc32` is the checksum of the package with `crc32` 0.
`rpc_pack` and `rpc_decode` convert the header in place between the order of the wire and that of
the host. Neither order nor checksum are looked into here: `host` is any order, and `crc`
(`generate_crc32c`) is any function of the bytes.
-/

namespace ViabtcExchange

/-! ## The header -/

/-- `struct rpc_pkg` up to `ext_size`. -/
structure RpcHead where
  magic : UInt32
  command : UInt32
  pkgType : UInt16
  result : UInt32
  crc32 : UInt32
  sequence : UInt32
  reqId : UInt64
  bodySize : UInt32
  extSize : UInt16
deriving DecidableEq, Repr

/-- `RPC_PKG_MAGIC`. -/
def rpcPkgMagic : UInt32 := 0x70656562

/-- `RPC_PKG_HEAD_SIZE`. -/
def rpcPkgHeadSize : UInt32 := 36

/-- `RPC_PKG_MAX_BODY_SIZE`, where `sizeof(rpc_pkg)` is 52. -/
def rpcPkgMaxBodySize : UInt32 := 4294967295 / 2 - 65535 - 52

section Convert

variable (host : ByteOrder)

def le16toh (x : UInt16) : UInt16 := .ofNat (ByteOrder.little.decode (host.encode 2 x.toNat))

def le32toh (x : UInt32) : UInt32 := .ofNat (ByteOrder.little.decode (host.encode 4 x.toNat))

def le64toh (x : UInt64) : UInt64 := .ofNat (ByteOrder.little.decode (host.encode 8 x.toNat))

def htole16 (x : UInt16) : UInt16 := .ofNat (host.decode (ByteOrder.little.encode 2 x.toNat))

def htole32 (x : UInt32) : UInt32 := .ofNat (host.decode (ByteOrder.little.encode 4 x.toNat))

def htole64 (x : UInt64) : UInt64 := .ofNat (host.decode (ByteOrder.little.encode 8 x.toNat))

end Convert

namespace RpcHead

/-- The header in memory. -/
def store (order : ByteOrder) (head : RpcHead) : List UInt8 :=
  order.encode 4 head.magic.toNat ++ order.encode 4 head.command.toNat ++
  order.encode 2 head.pkgType.toNat ++ order.encode 4 head.result.toNat ++
  order.encode 4 head.crc32.toNat ++ order.encode 4 head.sequence.toNat ++
  order.encode 8 head.reqId.toNat ++ order.encode 4 head.bodySize.toNat ++
  order.encode 2 head.extSize.toNat

/-- The header that lies at the beginning of memory. -/
def load (order : ByteOrder) (data : List UInt8) : RpcHead where
  magic := .ofNat (order.decode (data.take 4))
  command := .ofNat (order.decode ((data.drop 4).take 4))
  pkgType := .ofNat (order.decode ((data.drop 8).take 2))
  result := .ofNat (order.decode ((data.drop 10).take 4))
  crc32 := .ofNat (order.decode ((data.drop 14).take 4))
  sequence := .ofNat (order.decode ((data.drop 18).take 4))
  reqId := .ofNat (order.decode ((data.drop 22).take 8))
  bodySize := .ofNat (order.decode ((data.drop 30).take 4))
  extSize := .ofNat (order.decode ((data.drop 34).take 2))

@[simp] theorem length_store (order : ByteOrder) (head : RpcHead) :
    (head.store order).length = 36 := by
  simp [store]

theorem load_store (order : ByteOrder) (head : RpcHead) (rest : List UInt8) :
    load order (head.store order ++ rest) = head := by
  have h16 (x : UInt16) : UInt16.ofNat (order.decode (order.encode 2 x.toNat)) = x := by
    rw [ByteOrder.decode_encode order (by simpa using x.toNat_lt), UInt16.ofNat_toNat]
  have h32 (x : UInt32) : UInt32.ofNat (order.decode (order.encode 4 x.toNat)) = x := by
    rw [ByteOrder.decode_encode order (by simpa using x.toNat_lt), UInt32.ofNat_toNat]
  have h64 (x : UInt64) : UInt64.ofNat (order.decode (order.encode 8 x.toNat)) = x := by
    rw [ByteOrder.decode_encode order (by simpa using x.toNat_lt), UInt64.ofNat_toNat]
  simp (disch := simp) [load, store, List.drop_append, List.drop_of_length_le, h16, h32, h64]

/-- The conversions of `rpc_decode`. `crc32` is set apart. -/
def letoh (host : ByteOrder) (head : RpcHead) : RpcHead where
  magic := le32toh host head.magic
  command := le32toh host head.command
  pkgType := le16toh host head.pkgType
  result := le32toh host head.result
  crc32 := head.crc32
  sequence := le32toh host head.sequence
  reqId := le64toh host head.reqId
  bodySize := le32toh host head.bodySize
  extSize := le16toh host head.extSize

/-- The conversions of `rpc_pack`. -/
def htole (host : ByteOrder) (head : RpcHead) : RpcHead where
  magic := htole32 host head.magic
  command := htole32 host head.command
  pkgType := htole16 host head.pkgType
  result := htole32 host head.result
  crc32 := head.crc32
  sequence := htole32 host head.sequence
  reqId := htole64 host head.reqId
  bodySize := htole32 host head.bodySize
  extSize := htole16 host head.extSize

end RpcHead

section Convert

variable (host : ByteOrder)

theorem encode_htole16 (x : UInt16) :
    host.encode 2 (htole16 host x).toNat = ByteOrder.little.encode 2 x.toNat := by
  have hlt := ByteOrder.decode_lt host (ByteOrder.little.encode 2 x.toNat)
  rw [ByteOrder.length_encode] at hlt
  rw [htole16, UInt16.toNat_ofNat_of_lt' (by simpa using hlt),
    ByteOrder.encode_decode host (ByteOrder.length_encode _ _ _)]

theorem encode_htole32 (x : UInt32) :
    host.encode 4 (htole32 host x).toNat = ByteOrder.little.encode 4 x.toNat := by
  have hlt := ByteOrder.decode_lt host (ByteOrder.little.encode 4 x.toNat)
  rw [ByteOrder.length_encode] at hlt
  rw [htole32, UInt32.toNat_ofNat_of_lt' (by simpa using hlt),
    ByteOrder.encode_decode host (ByteOrder.length_encode _ _ _)]

theorem encode_htole64 (x : UInt64) :
    host.encode 8 (htole64 host x).toNat = ByteOrder.little.encode 8 x.toNat := by
  have hlt := ByteOrder.decode_lt host (ByteOrder.little.encode 8 x.toNat)
  rw [ByteOrder.length_encode] at hlt
  rw [htole64, UInt64.toNat_ofNat_of_lt' (by simpa using hlt),
    ByteOrder.encode_decode host (ByteOrder.length_encode _ _ _)]

@[simp] theorem le16toh_htole16 (x : UInt16) : le16toh host (htole16 host x) = x := by
  rw [le16toh, encode_htole16, ByteOrder.decode_encode _ (by simpa using x.toNat_lt),
    UInt16.ofNat_toNat]

@[simp] theorem le32toh_htole32 (x : UInt32) : le32toh host (htole32 host x) = x := by
  rw [le32toh, encode_htole32, ByteOrder.decode_encode _ (by simpa using x.toNat_lt),
    UInt32.ofNat_toNat]

@[simp] theorem le64toh_htole64 (x : UInt64) : le64toh host (htole64 host x) = x := by
  rw [le64toh, encode_htole64, ByteOrder.decode_encode _ (by simpa using x.toNat_lt),
    UInt64.ofNat_toNat]

theorem htole32_zero : htole32 host 0 = 0 := by
  cases host <;> decide

/-- The converted header lies in memory as on the wire. -/
theorem RpcHead.store_htole (head : RpcHead) :
    ({ head.htole host with crc32 := htole32 host head.crc32 } : RpcHead).store host =
      head.store .little := by
  simp only [RpcHead.store, RpcHead.htole, encode_htole16, encode_htole32, encode_htole64]

theorem RpcHead.letoh_htole (head : RpcHead) (crc32 : UInt32) :
    ({ head.htole host with crc32 := crc32 } : RpcHead).letoh host =
      { head with crc32 := crc32 } := by
  simp only [RpcHead.letoh, RpcHead.htole, le16toh_htole16, le32toh_htole32, le64toh_htole64]

end Convert

/-! ## Packages -/

/-- What a `struct rpc_pkg` shows. -/
structure RpcParts where
  head : RpcHead
  ext : List UInt8
  body : List UInt8
deriving DecidableEq, Repr

/-- A package to be sent: `ext` and `body` point to as many bytes as the header says. -/
structure RpcPkg extends RpcParts where
  ext_length : ext.length = head.extSize.toNat
  body_length : body.length = head.bodySize.toNat

/-- The bytes of a package, with the header in the given order. -/
def RpcParts.bytes (order : ByteOrder) (pkg : RpcParts) : List UInt8 :=
  pkg.head.store order ++ pkg.ext ++ pkg.body

/-- The package `on_recv_pkg` makes of the memory it is given. -/
def RpcParts.ofMemory (host : ByteOrder) (data : List UInt8) : RpcParts :=
  let head := RpcHead.load host data
  ⟨head, (data.drop 36).take head.extSize.toNat,
    (data.drop (36 + head.extSize.toNat)).take head.bodySize.toNat⟩

section Codec

variable (host : ByteOrder) (crc : List UInt8 → UInt32)

/-- `rpc_pack`, with memory at hand. -/
def rpcPack (pkg : RpcPkg) : Option (List UInt8) :=
  if pkg.head.bodySize > rpcPkgMaxBodySize then none
  else
    let head := { pkg.head with magic := rpcPkgMagic }.htole host
    let zeroed := { head with crc32 := 0 }.store host ++ pkg.ext ++ pkg.body
    some ({ head with crc32 := htole32 host (crc zeroed) }.store host ++ pkg.ext ++ pkg.body)

/-- `rpc_decode`: the return value, and the bytes it leaves. -/
def rpcDecode (data : List UInt8) : ℤ × List UInt8 :=
  if data.length < rpcPkgHeadSize.toNat then (0, data)
  else
    let pkg := RpcHead.load host data
    if le32toh host pkg.magic ≠ rpcPkgMagic then (-1, data)
    else
      let pkgSize := rpcPkgHeadSize + (le16toh host pkg.extSize).toUInt32 + le32toh host pkg.bodySize
      if data.length < pkgSize.toNat then (0, data)
      else
        let crc32 := le32toh host pkg.crc32
        let zeroed := { pkg with crc32 := 0 }.store host ++ data.drop 36
        if crc32 ≠ crc (zeroed.take pkgSize.toNat) then (-3, zeroed)
        else
          (pkgSize.toInt32.toInt, ({ pkg with crc32 := crc32 }.letoh host).store host ++ data.drop 36)

/-- The package as it is sent: `rpc_pack` sets two fields of the header. -/
def RpcPkg.sent (pkg : RpcPkg) : RpcParts :=
  let head := { pkg.head with magic := rpcPkgMagic, crc32 := 0 }
  { pkg.toRpcParts with head := { head with crc32 := crc (head.store .little ++ pkg.ext ++ pkg.body) } }

theorem rpcPack_eq {pkg : RpcPkg} (h : pkg.head.bodySize ≤ rpcPkgMaxBodySize) :
    rpcPack host crc pkg = some ((pkg.sent crc).bytes .little) := by
  have hzero := RpcHead.store_htole host { pkg.head with magic := rpcPkgMagic, crc32 := 0 }
  rw [htole32_zero] at hzero
  have hfull (c : UInt32) :=
    RpcHead.store_htole host { pkg.head with magic := rpcPkgMagic, crc32 := c }
  rw [rpcPack, if_neg (show ¬pkg.head.bodySize > rpcPkgMaxBodySize from UInt32.not_lt.mpr h)]
  simp only [RpcHead.htole] at hzero hfull ⊢
  rw [hzero, hfull]
  rfl

variable {pkg : RpcPkg}

theorem length_sent (pkg : RpcPkg) (order : ByteOrder) :
    ((pkg.sent crc).bytes order).length =
      36 + pkg.head.extSize.toNat + pkg.head.bodySize.toNat := by
  rw [RpcParts.bytes, List.length_append, List.length_append, RpcHead.length_store]
  exact congrArg₂ (36 + · + ·) pkg.ext_length pkg.body_length

/-- The `int` of a `uint32_t`. -/
theorem toInt_toInt32 (x : UInt32) : x.toInt32.toInt = (x.toNat : ℤ).bmod (2 ^ 32) :=
  BitVec.toInt_eq_toNat_bmod x.toBitVec

/-- `uint32_t` holds the size of a package that `rpc_pack` accepts, and so does `int`. -/
theorem pkgSize_sent (h : pkg.head.bodySize ≤ rpcPkgMaxBodySize) :
    (rpcPkgHeadSize + pkg.head.extSize.toUInt32 + pkg.head.bodySize).toNat =
      ((pkg.sent crc).bytes .little).length ∧
    (rpcPkgHeadSize + pkg.head.extSize.toUInt32 + pkg.head.bodySize).toInt32.toInt =
      ((pkg.sent crc).bytes .little).length := by
  have hext := pkg.head.extSize.toNat_lt
  have hbody : pkg.head.bodySize.toNat ≤ rpcPkgMaxBodySize.toNat := h
  have hmax : rpcPkgMaxBodySize.toNat = 2147418060 := by decide
  have hhead : rpcPkgHeadSize.toNat = 36 := rfl
  have hnat : (rpcPkgHeadSize + pkg.head.extSize.toUInt32 + pkg.head.bodySize).toNat =
      36 + pkg.head.extSize.toNat + pkg.head.bodySize.toNat := by
    rw [UInt32.toNat_add, UInt32.toNat_add, UInt16.toNat_toUInt32, hhead]
    omega
  rw [length_sent]
  refine ⟨hnat, ?_⟩
  rw [toInt_toInt32, hnat]
  rw [Int.bmod_eq_of_le] <;> omega

/-- The header in what has been received, once it has been received whole. -/
theorem load_sent {data : List UInt8} (hlen : 36 ≤ data.length)
    (h : data <+: (pkg.sent crc).bytes .little ∨ (pkg.sent crc).bytes .little <+: data) :
    RpcHead.load host data = { (pkg.sent crc).head.htole host with
      crc32 := htole32 host (pkg.sent crc).head.crc32 } := by
  have hprefix : (pkg.sent crc).head.store .little <+: data := by
    have hstore : (pkg.sent crc).head.store .little <+: (pkg.sent crc).bytes .little := by
      rw [RpcParts.bytes, List.append_assoc]
      exact List.prefix_append _ _
    rcases h with h | h
    · exact List.prefix_of_prefix_length_le hstore h (by rwa [RpcHead.length_store])
    · exact hstore.trans h
  obtain ⟨rest, rfl⟩ := hprefix
  rw [← RpcHead.store_htole host, RpcHead.load_store]

/-- Of a part of a package `rpc_decode` wants more. -/
theorem rpcDecode_part (hmax : pkg.head.bodySize ≤ rpcPkgMaxBodySize) {data : List UInt8}
    (h : data <+: (pkg.sent crc).bytes .little)
    (hshort : data.length < ((pkg.sent crc).bytes .little).length) :
    rpcDecode host crc data = (0, data) := by
  have hhead : rpcPkgHeadSize.toNat = 36 := rfl
  unfold rpcDecode
  by_cases hlen : data.length < 36
  · rw [if_pos (by rwa [hhead])]
  · rw [if_neg (by rwa [hhead]), load_sent host crc (not_lt.mp hlen) (.inl h)]
    have hsize := (pkgSize_sent crc hmax).1
    simp only [RpcHead.htole, le16toh_htole16, le32toh_htole32]
    rw [if_neg (fun hne => hne rfl), if_pos]
    exact hsize ▸ hshort

/-- What `rpc_decode` does with a good header. -/
theorem rpcDecode_of_load {data : List UInt8} {head : RpcHead} {size : UInt32}
    (hlen : 36 ≤ data.length)
    (hload : RpcHead.load host data =
      { head.htole host with crc32 := htole32 host head.crc32 })
    (hmagic : head.magic = rpcPkgMagic)
    (hsize : rpcPkgHeadSize + head.extSize.toUInt32 + head.bodySize = size)
    (hfull : size.toNat ≤ data.length)
    (hcrc : head.crc32 = crc
      (({ head with crc32 := 0 }.store .little ++ data.drop 36).take size.toNat)) :
    rpcDecode host crc data = (size.toInt32.toInt, head.store host ++ data.drop 36) := by
  have hhead : rpcPkgHeadSize.toNat = 36 := rfl
  have hzero := RpcHead.store_htole host { head with crc32 := 0 }
  have hback := RpcHead.letoh_htole host head head.crc32
  rw [htole32_zero] at hzero
  unfold rpcDecode
  rw [if_neg (by rw [hhead]; omega), hload]
  simp only [RpcHead.htole] at hzero hback ⊢
  simp only [le16toh_htole16, le32toh_htole32]
  rw [hsize, hzero, hback, if_neg (fun hne => hne hmagic), if_neg (not_lt.mpr hfull),
    if_neg (fun hne => hne hcrc)]

/-- Of a whole package, whatever comes after it, `rpc_decode` returns the size, and it leaves the
header in the order of the host. -/
theorem rpcDecode_whole (hmax : pkg.head.bodySize ≤ rpcPkgMaxBodySize) (rest : List UInt8) :
    rpcDecode host crc ((pkg.sent crc).bytes .little ++ rest) =
      ((((pkg.sent crc).bytes .little).length : ℤ), (pkg.sent crc).bytes host ++ rest) := by
  obtain ⟨hnat, hint⟩ := pkgSize_sent crc hmax
  have hlen : 36 ≤ ((pkg.sent crc).bytes .little ++ rest).length := by
    rw [List.length_append, length_sent]
    omega
  have hdrop : ((pkg.sent crc).bytes .little ++ rest).drop 36 = pkg.ext ++ (pkg.body ++ rest) := by
    rw [RpcParts.bytes, List.append_assoc, List.append_assoc,
      ← RpcHead.length_store .little (pkg.sent crc).head, List.drop_left]
    rfl
  -- The checksum is that of the bytes of the package alone.
  have hchecked (zeroed : RpcHead) : (zeroed.store .little ++ (pkg.ext ++ (pkg.body ++ rest))).take
      ((pkg.sent crc).bytes .little).length = zeroed.store .little ++ pkg.ext ++ pkg.body := by
    have hsame : ((pkg.sent crc).bytes .little).length =
        (zeroed.store .little ++ pkg.ext ++ pkg.body).length := by
      simp only [RpcParts.bytes, List.length_append, RpcHead.length_store, RpcPkg.sent]
    rw [hsame, ← List.append_assoc, ← List.append_assoc, List.take_left]
  rw [rpcDecode_of_load host crc hlen (load_sent host crc hlen (.inr (List.prefix_append _ rest))) rfl rfl,
    hdrop]
  · exact Prod.ext hint (by simp only [RpcParts.bytes, List.append_assoc]; rfl)
  · show (rpcPkgHeadSize + pkg.head.extSize.toUInt32 + pkg.head.bodySize).toNat ≤ _
    rw [hnat, List.length_append]
    exact Nat.le_add_right _ _
  · show _ = crc (List.take
      (rpcPkgHeadSize + pkg.head.extSize.toUInt32 + pkg.head.bodySize).toNat _)
    rw [hnat, hdrop, hchecked]
    rfl

/-- `on_recv_pkg` sees the package that was sent. -/
theorem ofMemory_sent (after : List UInt8) :
    RpcParts.ofMemory host ((pkg.sent crc).bytes host ++ after) = pkg.sent crc := by
  have hext : (pkg.sent crc).ext.length = (pkg.sent crc).head.extSize.toNat := pkg.ext_length
  have hbody : (pkg.sent crc).body.length = (pkg.sent crc).head.bodySize.toNat := pkg.body_length
  unfold RpcParts.ofMemory RpcParts.bytes
  rw [List.append_assoc, List.append_assoc]
  simp only [RpcHead.load_store]
  rw [← List.drop_drop, ← RpcHead.length_store host (pkg.sent crc).head, List.drop_left, ← hext,
    List.drop_left, List.take_left, ← hbody, List.take_left]

theorem rpcDecode_ret_le (data : List UInt8) : (rpcDecode host crc data).1 ≤ data.length := by
  unfold rpcDecode
  dsimp only
  split_ifs with hhead hmagic hsize hcrc
  · exact Int.natCast_nonneg _
  · exact (by decide : (-1 : ℤ) ≤ 0).trans (Int.natCast_nonneg _)
  · exact Int.natCast_nonneg _
  · exact (by decide : (-3 : ℤ) ≤ 0).trans (Int.natCast_nonneg _)
  · refine le_trans ?_ (Int.ofNat_le.mpr (not_lt.mp hsize))
    rw [toInt_toInt32, Int.bmod_def]
    split_ifs <;> omega

theorem length_rpcDecode (data : List UInt8) :
    (rpcDecode host crc data).2.length = data.length := by
  have hhead : rpcPkgHeadSize.toNat = 36 := rfl
  unfold rpcDecode
  dsimp only
  split_ifs with hshort hmagic hsize hcrc
  · rfl
  · rfl
  · rfl
  · rw [List.length_append, RpcHead.length_store, List.length_drop]
    omega
  · rw [List.length_append, RpcHead.length_store, List.length_drop]
    omega

end Codec

/-! ## Sessions -/

section Sessions

variable {σ : Type} (host : ByteOrder) (crc : List UInt8 → UInt32)
  (onRecv : σ → RpcParts → σ × Bool)

/-- The callbacks of `ut_rpc_svr.c` and `ut_rpc_clt.c`. What these do with a package is any
function. -/
def rpcType : PkgType σ where
  decodePkg s data := ⟨s, (rpcDecode host crc data).1, (rpcDecode host crc data).2⟩
  onRecvPkg s data _ := onRecv s (.ofMemory host data)
  ret_le _ := rpcDecode_ret_le host crc
  length_eq _ := length_rpcDecode host crc

theorem decodePkg_rpcType (s : σ) (data : List UInt8) :
    (rpcType host crc onRecv).decodePkg s data =
      ⟨s, (rpcDecode host crc data).1, (rpcDecode host crc data).2⟩ := rfl

/-- What a package does to whoever gets it. -/
def RpcPkg.handle (s : σ) (pkg : RpcPkg) : σ × Bool := onRecv s (pkg.sent crc)

theorem rpcType_speaks : (rpcType host crc onRecv).Speaks
    (fun pkg : RpcPkg => pkg.head.bodySize ≤ rpcPkgMaxBodySize)
    (fun pkg => (pkg.sent crc).bytes .little)
    (fun pkg data => RpcParts.ofMemory host data = pkg.sent crc) Eq (RpcPkg.handle crc onRecv) where
  nonempty pkg _ hnil := by
    have hlen := length_sent crc pkg .little
    rw [hnil, List.length_nil] at hlen
    omega
  part t s pkg data hmax ht _ hprefix hshort := by
    have hpart := rpcDecode_part host crc hmax hprefix hshort
    exact ⟨congrArg Prod.fst hpart, congrArg Prod.snd hpart, ht⟩
  whole t s pkg rest hmax ht := by
    have hwhole := rpcDecode_whole host crc hmax rest
    simp only [rpcType, hwhole]
    refine ⟨trivial, _, rfl, ?_, fun after => ?_⟩
    · rw [length_sent, length_sent]
    · rw [ofMemory_sent, ht]
      exact ⟨rfl, rfl, rfl⟩

/-- **Packages over a stream.** However packages are cut into reads, each is handed over once and in
order as it was packed, until the session is closed by whoever gets them, and there is no error. -/
theorem packages_delivered (pkgs : List RpcPkg) (packed : List (List UInt8)) (size : ℕ) {s : σ}
    {sesType : SesType} {wakes : List Wake}
    (hmax : ∀ pkg ∈ pkgs, pkg.head.bodySize ≤ rpcPkgMaxBodySize)
    (hpack : pkgs.map (rpcPack host crc) = packed.map some)
    (hsize : ∀ bytes ∈ packed, bytes.length ≤ size)
    (hcut : wakes.flatMap Wake.data = packed.flatten)
    (hfits : NwSes.Fits (rpcType host crc onRecv) size (.start .stream sesType s) wakes) :
    (NwSes.readAll (rpcType host crc onRecv) (.start .stream sesType s) wakes).errors = [] ∧
      (NwSes.readAll (rpcType host crc onRecv) (.start .stream sesType s) wakes).calls.map
          (fun call => RpcParts.ofMemory host call.data) =
        (handled (RpcPkg.handle crc onRecv) s pkgs).map (RpcPkg.sent crc) ∧
      ((NwSes.readAll (rpcType host crc onRecv) (.start .stream sesType s) wakes).isOpen = true →
        (NwSes.readAll (rpcType host crc onRecv) (.start .stream sesType s) wakes).calls.map
            (fun call => RpcParts.ofMemory host call.data) = pkgs.map (RpcPkg.sent crc)) := by
  have hbytes : packed = pkgs.map fun pkg => (pkg.sent crc).bytes .little := by
    have hsome : packed.map some = (pkgs.map fun pkg => (pkg.sent crc).bytes .little).map some := by
      rw [← hpack, List.map_map]
      exact List.map_congr_left fun pkg hpkg => rpcPack_eq host crc (hmax pkg hpkg)
    exact List.map_injective_iff.mpr (Option.some_injective _) hsome
  obtain ⟨hafter, hopen⟩ := (rpcType_speaks host crc onRecv).readAll_blocks (t := s) hmax
    (fun pkg hpkg => hsize _ (by rw [hbytes]; exact List.mem_map_of_mem hpkg)) rfl rfl
      rfl (.inl rfl)
    (fun _ hbuf => by cases hbuf) (by rw [hcut, hbytes, List.flatMap_def]; rfl) hfits
  obtain ⟨calls, hcalls, hshows⟩ := hafter.calls
  have hmap : ∀ {items : List RpcPkg} {calls : List RecvCall},
      List.Forall₂ (fun pkg call => RpcParts.ofMemory host call.data = pkg.sent crc) items calls →
      calls.map (fun call => RpcParts.ofMemory host call.data) = items.map (RpcPkg.sent crc) := by
    intro items calls hall
    induction hall with
    | nil => rfl
    | cons hshow _ ih => rw [List.map_cons, List.map_cons, hshow, ih]
  have hall := hmap hshows
  rw [show calls = _ from hcalls.symm] at hall
  refine ⟨hafter.errors, hall, fun hstill => ?_⟩
  rw [hall, handled_of_more (hopen.symm.trans hstill)]

end Sessions

/-! ## A package in two reads -/

/-- A package that is a header alone. -/
def examplePkg : RpcPkg where
  head := ⟨0, 7, 0, 0, 0, 1, 5, 0, 0⟩
  ext := []
  body := []
  ext_length := rfl
  body_length := rfl

/-- The bytes of it, where the checksum is 0. -/
def exampleBytes : List UInt8 :=
  [0x62, 0x65, 0x65, 0x70, 7, 0, 0, 0, 0, 0, 0, 0, 0, 0, 0, 0, 0, 0, 1, 0, 0, 0, 5, 0, 0, 0, 0, 0, 0, 0,
    0, 0, 0, 0, 0, 0]

def exampleWake : Wake :=
  ⟨some (List.replicate 40 0), [.bytes (exampleBytes.take 20) false, .bytes (exampleBytes.drop 20) false]⟩

def exampleType : PkgType Unit := rpcType .big (fun _ => 0) fun u _ => (u, true)

/-- After the first 20 bytes `rpc_decode` wants more. -/
theorem exampleType_part : NwSes.decodeLoop exampleType (.start .stream .common ())
    (((NwBuf.alloc (List.replicate 40 0)).write (exampleBytes.take 20)).1) =
      (.start .stream .common (), some ⟨[], exampleBytes.take 20, List.replicate 20 0⟩) := by
  rw [NwSes.decodeLoop]
  rfl

theorem packages_delivered_in_parts :
    (NwSes.readAll exampleType (.start .stream .common ()) [exampleWake]).errors = [] ∧
      (NwSes.readAll exampleType (.start .stream .common ()) [exampleWake]).calls.map
        (fun call => RpcParts.ofMemory .big call.data) = [examplePkg.sent fun _ => 0] := by
  have hfits : NwSes.Fits exampleType 40 (.start .stream .common ()) [exampleWake] := by
    refine ⟨fun _ => ⟨⟨_, rfl, by decide⟩, fun buf hbuf => ?_⟩, trivial⟩
    obtain rfl : NwBuf.alloc (List.replicate 40 0) = buf := Option.some.inj hbuf
    refine ⟨by decide, by decide, fun ses' buf' hloop => ?_⟩
    obtain ⟨rfl, rfl⟩ : _ = ses' ∧ _ = buf' := by
      simpa using exampleType_part.symm.trans hloop
    exact ⟨by decide, by decide, fun _ _ _ => trivial⟩
  have hall := packages_delivered .big (fun _ => 0) (fun u _ => (u, true)) [examplePkg]
    [exampleBytes] 40 (by decide) (by decide +kernel) (by decide) (by decide) hfits
  exact ⟨hall.1, hall.2.1⟩

end ViabtcExchange
