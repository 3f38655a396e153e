import ViabtcExchange.Lib.Dict
import ViabtcExchange.Lib.Accounts
import ViabtcExchange.Decimal

/-!
# User balances (`me_balance.c`)

`dict_balance` maps a user, a balance type and an asset to a positive amount; an amount that
becomes zero is deleted. The functions that change it return the new dictionary, `none` where
the source returns `NULL`: every such return comes before the first write.

The matching engine drops most of these results. `Ledger.call` is such a call: it goes on with
the old dictionary when the call fails. A ledger also keeps the list of the calls made and
whether they succeeded; no function reads it, it is there for the theorems.
-/

namespace ViabtcExchange

inductive BalanceType
  | available
  | freeze
deriving DecidableEq, Repr

structure BalanceKey where
  userId : ℕ
  type : BalanceType
  asset : String
deriving DecidableEq, Repr

structure AssetType where
  precSave : ℕ
  precShow : ℕ
deriving DecidableEq, Repr

section Functions

variable {D : Type} (mpd : Mpd D) (dictAsset : Dict String AssetType) (b : Dict BalanceKey D)

def assetExist (asset : String) : Bool := (dictAsset.find asset).isSome

/-- The precision balances are kept at, -1 for an unknown asset. -/
def assetPrec (asset : String) : ℤ :=
  match dictAsset.find asset with
  | some ty => ty.precSave
  | none => -1

/-- The precision balances are shown at, -1 for an unknown asset. -/
def assetPrecShow (asset : String) : ℤ :=
  match dictAsset.find asset with
  | some ty => ty.precShow
  | none => -1

def balanceGet (userId : ℕ) (type : BalanceType) (asset : String) : Option D :=
  b.find ⟨userId, type, asset⟩

def balanceDel (userId : ℕ) (type : BalanceType) (asset : String) : Dict BalanceKey D :=
  b.erase ⟨userId, type, asset⟩

def balanceSet (userId : ℕ) (type : BalanceType) (asset : String) (amount : D) :
    Option (Dict BalanceKey D) :=
  match dictAsset.find asset with
  | none => none
  | some ty =>
    if mpd.cmp amount mpd.zero < 0 then none
    else if mpd.cmp amount mpd.zero = 0 then some (balanceDel b userId type asset)
    else some (b.insert ⟨userId, type, asset⟩ (mpd.rescale amount (-ty.precSave)))

def balanceAdd (userId : ℕ) (type : BalanceType) (asset : String) (amount : D) :
    Option (Dict BalanceKey D) :=
  match dictAsset.find asset with
  | none => none
  | some ty =>
    if mpd.cmp amount mpd.zero < 0 then none
    else
      match balanceGet b userId type asset with
      | some result =>
        some (b.insert ⟨userId, type, asset⟩
          (mpd.rescale (mpd.add result amount) (-ty.precSave)))
      | none => balanceSet mpd dictAsset b userId type asset amount

/-- The end of `balance_sub`, `balance_freeze` and `balance_unfreeze`: an entry goes down. -/
def balanceLower (userId : ℕ) (type : BalanceType) (asset : String) (ty : AssetType)
    (result amount : D) : Dict BalanceKey D :=
  let result := mpd.sub result amount
  if mpd.cmp result mpd.zero = 0 then balanceDel b userId type asset
  else b.insert ⟨userId, type, asset⟩ (mpd.rescale result (-ty.precSave))

def balanceSub (userId : ℕ) (type : BalanceType) (asset : String) (amount : D) :
    Option (Dict BalanceKey D) :=
  match dictAsset.find asset with
  | none => none
  | some ty =>
    if mpd.cmp amount mpd.zero < 0 then none
    else
      match balanceGet b userId type asset with
      | none => none
      | some result =>
        if mpd.cmp result amount < 0 then none
        else some (balanceLower mpd b userId type asset ty result amount)

/-- `balance_freeze` and `balance_unfreeze`: move an amount between the two types of a user. -/
def balanceMove (src dst : BalanceType) (userId : ℕ) (asset : String) (amount : D) :
    Option (Dict BalanceKey D) :=
  match dictAsset.find asset with
  | none => none
  | some ty =>
    if mpd.cmp amount mpd.zero < 0 then none
    else
      match balanceGet b userId src asset with
      | none => none
      | some result =>
        if mpd.cmp result amount < 0 then none
        else
          match balanceAdd mpd dictAsset b userId dst asset amount with
          | none => none
          | some b => some (balanceLower mpd b userId src asset ty result amount)

def balanceFreeze (userId : ℕ) (asset : String) (amount : D) : Option (Dict BalanceKey D) :=
  balanceMove mpd dictAsset b .available .freeze userId asset amount

def balanceUnfreeze (userId : ℕ) (asset : String) (amount : D) : Option (Dict BalanceKey D) :=
  balanceMove mpd dictAsset b .freeze .available userId asset amount

def balanceTotal (userId : ℕ) (asset : String) : D :=
  let balance := mpd.zero
  let balance :=
    match balanceGet b userId .available asset with
    | some available => mpd.add balance available
    | none => balance
  match balanceGet b userId .freeze asset with
  | some freeze => mpd.add balance freeze
  | none => balance

end Functions

/-! ## Calls whose result is dropped -/

inductive BalanceCall (D : Type)
  | add (userId : ℕ) (type : BalanceType) (asset : String) (amount : D)
  | sub (userId : ℕ) (type : BalanceType) (asset : String) (amount : D)
  | freeze (userId : ℕ) (asset : String) (amount : D)
  | unfreeze (userId : ℕ) (asset : String) (amount : D)
deriving DecidableEq, Repr

def BalanceCall.run {D : Type} (mpd : Mpd D) (dictAsset : Dict String AssetType)
    (b : Dict BalanceKey D) : BalanceCall D → Option (Dict BalanceKey D)
  | .add userId type asset amount => balanceAdd mpd dictAsset b userId type asset amount
  | .sub userId type asset amount => balanceSub mpd dictAsset b userId type asset amount
  | .freeze userId asset amount => balanceFreeze mpd dictAsset b userId asset amount
  | .unfreeze userId asset amount => balanceUnfreeze mpd dictAsset b userId asset amount

/-- `dict_asset`, `dict_balance`, and the calls made so far. -/
structure Ledger (D : Type) where
  dictAsset : Dict String AssetType
  dictBalance : Dict BalanceKey D
  calls : List (BalanceCall D × Bool)

namespace Ledger

variable {D : Type} (mpd : Mpd D)

/-- Whether a call would return other than `NULL`. -/
def accepts (l : Ledger D) (c : BalanceCall D) : Bool :=
  (c.run mpd l.dictAsset l.dictBalance).isSome

def call (l : Ledger D) (c : BalanceCall D) : Ledger D :=
  match c.run mpd l.dictAsset l.dictBalance with
  | some b => { l with dictBalance := b, calls := l.calls ++ [(c, true)] }
  | none => { l with calls := l.calls ++ [(c, false)] }

def callAll (l : Ledger D) (cs : List (BalanceCall D)) : Ledger D := cs.foldl (call mpd) l

@[simp] theorem call_dictAsset (l : Ledger D) (c : BalanceCall D) :
    (l.call mpd c).dictAsset = l.dictAsset := by
  unfold call
  split <;> rfl

@[simp] theorem callAll_nil (l : Ledger D) : l.callAll mpd [] = l := rfl

@[simp] theorem callAll_cons (l : Ledger D) (c : BalanceCall D) (cs : List (BalanceCall D)) :
    l.callAll mpd (c :: cs) = (l.call mpd c).callAll mpd cs := rfl

theorem callAll_append (l : Ledger D) (cs ds : List (BalanceCall D)) :
    l.callAll mpd (cs ++ ds) = (l.callAll mpd cs).callAll mpd ds := List.foldl_append

@[simp] theorem callAll_dictAsset (l : Ledger D) (cs : List (BalanceCall D)) :
    (l.callAll mpd cs).dictAsset = l.dictAsset := by
  induction cs generalizing l with
  | nil => rfl
  | cons c cs ih => rw [callAll_cons, ih, call_dictAsset]

end Ledger

end ViabtcExchange
