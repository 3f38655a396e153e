import ViabtcExchange.Order

/-!
# Balance updates (`me_update.c`)

An update is identified by user, asset, business and business id, and `dict_update` remembers for
a day the ones applied. Keys are compared byte by byte: of the business only 32 bytes are kept,
and the structure has four bytes of padding that nothing writes. `UpdateKey.padding` is what
happens to be there.
-/

namespace ViabtcExchange

structure UpdateKey where
  userId : ℕ
  asset : String
  /-- The first 32 bytes. -/
  business : List UInt8
  padding : ℕ
  businessId : ℕ
deriving DecidableEq, Repr

/-- `sizeof` of the field `business`, `BUSINESS_NAME_MAX_LEN + 1`. -/
def businessSize : ℕ := 32

def updateKey (userId : ℕ) (asset business : String) (padding businessId : ℕ) : UpdateKey where
  userId := userId
  asset := asset
  business := business.toUTF8.data.toList.take businessSize
  padding := padding
  businessId := businessId

/-- The arguments of an update. -/
structure UpdateArgs (D : Type) where
  userId : ℕ
  asset : String
  business : String
  businessId : ℕ
  change : D
  detail : List (String × Json)

section Update

variable {D : Type} (mpd : Mpd D) (real : Bool)

/-- `balance_add` of the change, or `balance_sub` of its absolute value. -/
def applyChange (l : Ledger D) (userId : ℕ) (asset : String) (change : D) :
    Option (Dict BalanceKey D) :=
  if mpd.cmp change mpd.zero ≥ 0 then
    balanceAdd mpd l.dictAsset l.dictBalance userId .available asset (mpd.abs change)
  else balanceSub mpd l.dictAsset l.dictBalance userId .available asset (mpd.abs change)

/-- `json_integer` of a `uint64_t`, whose bits it reads as a signed number. -/
def jsonInteger (n : ℕ) : Json := .integer (if n < 2 ^ 63 then n else n - 2 ^ 64)

/-- `json_object_set_new(detail, "id", …)`: replace the entry, or add one at the end. -/
def setId (detail : List (String × Json)) (businessId : ℕ) : List (String × Json) :=
  if detail.any fun kv => kv.1 = "id" then
    detail.map fun kv => if kv.1 = "id" then ("id", jsonInteger businessId) else kv
  else detail ++ [("id", jsonInteger businessId)]

/-- The result code, and the state after it. -/
def updateUserBalance (s : Statics D) (dictUpdate : Dict UpdateKey ℚ) (args : UpdateArgs D)
    (padding : ℕ) (now : ℚ) : ℤ × Statics D × Dict UpdateKey ℚ :=
  let key := updateKey args.userId args.asset args.business padding args.businessId
  match dictUpdate.find key with
  | some _ => (-1, s, dictUpdate)
  | none =>
    match applyChange mpd s.ledger args.userId args.asset args.change with
    | none => (-2, s, dictUpdate)
    | some b =>
      let s := { s with ledger := { s.ledger with dictBalance := b } }
      let s := s.appendUserBalanceHistory mpd real args.userId args.asset args.business args.change
        (.update (.object (setId args.detail args.businessId)))
      let s := s.push real (.balance args.userId args.asset args.business args.change)
      (0, s, dictUpdate.insert key now)

end Update

/-- The timer of `me_update.c`, once a minute: forget what is older than a day. -/
def expireUpdates (dictUpdate : Dict UpdateKey ℚ) (now : ℚ) : Dict UpdateKey ℚ :=
  Dict.filter (fun _ createTime => !(createTime < now - 86400)) dictUpdate

end ViabtcExchange
