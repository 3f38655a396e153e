import ViabtcExchange.Update
import ViabtcExchange.Decimal

/-!
# Which updates are taken for repeats (`me_update.c`)

An update is meant to be known by its user, asset, business and business id. The keys of
`dict_update` say less and more than that: they hold 32 bytes of the business, and four bytes of
padding that come from the stack. (The name of a known asset has at most 15 bytes and is whole.)

`accepted` is what the calls and the timer so far leave to be recognised: the updates that returned
0 and have not expired. `Remembers` says that `dict_update` is the table of their keys, in every
run.

**Theorem (`UpdateDesk.repeat_iff`).** A call returns -1 exactly when such an update has the same
user, asset, business and id, if no other business has its first 32 bytes and the padding is what
it was. `longNames_hidden` and `padding_missed` are the two ways this fails.
-/

namespace ViabtcExchange

/-- What an update is meant to be known by. -/
structure UpdateId where
  userId : ℕ
  asset : String
  business : String
  businessId : ℕ
deriving DecidableEq, Repr

def UpdateArgs.id {D : Type} (args : UpdateArgs D) : UpdateId :=
  ⟨args.userId, args.asset, args.business, args.businessId⟩

def UpdateId.key (id : UpdateId) (padding : ℕ) : UpdateKey :=
  updateKey id.userId id.asset id.business padding id.businessId

/-- A call of `update_user_balance` and its result, or a run of `on_timer`. -/
inductive UpdateRecord
  | call (id : UpdateId) (padding : ℕ) (now : ℚ) (ret : ℤ)
  | timer (now : ℚ)

/-- An update that has been accepted. -/
structure AcceptedUpdate where
  id : UpdateId
  padding : ℕ
  createTime : ℚ

def AcceptedUpdate.key (e : AcceptedUpdate) : UpdateKey := e.id.key e.padding

/-- The calls that returned 0 and have not been expired by the timer, of a record whose last entry
comes first. -/
def accepted : List UpdateRecord → List AcceptedUpdate
  | [] => []
  | .call id padding now ret :: past =>
    if ret = 0 then ⟨id, padding, now⟩ :: accepted past else accepted past
  | .timer now :: past => (accepted past).filter fun e => !(e.createTime < now - 86400)

/-! ## Runs -/

/-- What happens: a call, the timer, or whatever else the engine does to its balances. -/
inductive UpdateAct (D : Type)
  | call (args : UpdateArgs D) (padding : ℕ) (now : ℚ)
  | timer (now : ℚ)
  | other (s : Statics D)

/-- The state of the module, and what has happened to it. -/
structure UpdateDesk (D : Type) where
  statics : Statics D
  dictUpdate : Dict UpdateKey ℚ
  past : List UpdateRecord

namespace UpdateDesk

section Run

variable {D : Type} (mpd : Mpd D) (real : Bool)

/-- The result of a call. -/
def ret (d : UpdateDesk D) (args : UpdateArgs D) (padding : ℕ) (now : ℚ) : ℤ :=
  (updateUserBalance mpd real d.statics d.dictUpdate args padding now).1

def step (d : UpdateDesk D) : UpdateAct D → UpdateDesk D
  | .call args padding now =>
    let (ret, s, dictUpdate) :=
      updateUserBalance mpd real d.statics d.dictUpdate args padding now
    ⟨s, dictUpdate, .call args.id padding now ret :: d.past⟩
  | .timer now => { d with dictUpdate := expireUpdates d.dictUpdate now, past := .timer now :: d.past }
  | .other s => { d with statics := s }

/-- After `init_update`. -/
def init (s : Statics D) : UpdateDesk D := ⟨s, ∅, []⟩

def run (s : Statics D) (acts : List (UpdateAct D)) : UpdateDesk D :=
  acts.foldl (step mpd real) (init s)

/-- The condition on a call: the accepted updates with its user, asset and id have its business
exactly when they have its first 32 bytes and its padding. -/
def TellsApart (d : UpdateDesk D) (args : UpdateArgs D) (padding : ℕ) : Prop :=
  ∀ e ∈ accepted d.past, e.id.userId = args.userId → e.id.asset = args.asset →
    e.id.businessId = args.businessId →
    (e.id.business = args.business ↔
      e.id.business.toUTF8.data.toList.take businessSize =
        args.business.toUTF8.data.toList.take businessSize ∧ e.padding = padding)

end Run

/-! ## The table is the keys of the accepted updates -/

section Invariant

variable {D : Type} {mpd : Mpd D} {real : Bool} {d : UpdateDesk D}

/-- The invariant: `dict_update` holds the keys of the accepted updates, with their times. -/
def Remembers (d : UpdateDesk D) : Prop :=
  ∀ k t, d.dictUpdate.find k = some t ↔
    ∃ e ∈ accepted d.past, e.key = k ∧ e.createTime = t

variable (mpd real) in
/-- A call finds its key and returns -1, or it fails and returns -2, or it enters the key. -/
theorem updateUserBalance_cases (s : Statics D) (dictUpdate : Dict UpdateKey ℚ)
    (args : UpdateArgs D) (padding : ℕ) (now : ℚ) :
    (∃ t, dictUpdate.find (args.id.key padding) = some t ∧
      updateUserBalance mpd real s dictUpdate args padding now = (-1, s, dictUpdate)) ∨
    (dictUpdate.find (args.id.key padding) = none ∧
      (updateUserBalance mpd real s dictUpdate args padding now = (-2, s, dictUpdate) ∨
        ∃ s', updateUserBalance mpd real s dictUpdate args padding now =
          (0, s', dictUpdate.insert (args.id.key padding) now))) := by
  unfold updateUserBalance
  cases hfind : dictUpdate.find (args.id.key padding) with
  | some t =>
    refine Or.inl ⟨t, rfl, ?_⟩
    simp only [UpdateArgs.id, UpdateId.key] at hfind
    simp only [hfind]
  | none =>
    refine Or.inr ⟨rfl, ?_⟩
    simp only [UpdateArgs.id, UpdateId.key] at hfind
    simp only [hfind]
    cases applyChange mpd s.ledger args.userId args.asset args.change with
    | none => exact Or.inl rfl
    | some b => exact Or.inr ⟨_, rfl⟩

theorem ret_eq_neg_one_iff (args : UpdateArgs D) (padding : ℕ) (now : ℚ) :
    d.ret mpd real args padding now = -1 ↔
      ∃ t, d.dictUpdate.find (args.id.key padding) = some t := by
  unfold ret
  rcases updateUserBalance_cases mpd real d.statics d.dictUpdate args padding now
    with ⟨t, hfind, heq⟩ | ⟨hfind, heq | ⟨s', heq⟩⟩ <;> rw [heq] <;> simp [hfind]

theorem Remembers.call (h : d.Remembers) (args : UpdateArgs D) (padding : ℕ) (now : ℚ) :
    (d.step mpd real (.call args padding now)).Remembers := by
  intro k t
  unfold step
  rcases updateUserBalance_cases mpd real d.statics d.dictUpdate args padding now
    with ⟨t', hfind, heq⟩ | ⟨hfind, heq | ⟨s', heq⟩⟩
  · simp only [heq, accepted]
    exact h k t
  · simp only [heq, accepted]
    exact h k t
  · -- the key is new, so no accepted update has it
    simp only [heq, accepted, if_true, List.mem_cons]
    rw [Dict.find_insert]
    by_cases hk : k = args.id.key padding
    · rw [if_pos hk]
      constructor
      · intro ht
        exact ⟨⟨args.id, padding, now⟩, Or.inl rfl, hk.symm, Option.some.inj ht⟩
      · rintro ⟨e, rfl | he, hkey, htime⟩
        · rw [← htime]
        · have hold := (h k e.createTime).mpr ⟨e, he, hkey, rfl⟩
          rw [hk, hfind] at hold
          cases hold
    · rw [if_neg hk, h k t]
      constructor
      · rintro ⟨e, he, hkey, htime⟩
        exact ⟨e, Or.inr he, hkey, htime⟩
      · rintro ⟨e, rfl | he, hkey, htime⟩
        · exact absurd hkey.symm hk
        · exact ⟨e, he, hkey, htime⟩

theorem Remembers.timer (h : d.Remembers) (now : ℚ) :
    (d.step mpd real (.timer now)).Remembers := by
  intro k t
  simp only [step, accepted, expireUpdates]
  rw [Dict.find_filter_eq_some, h k t]
  constructor
  · rintro ⟨⟨e, he, hkey, rfl⟩, hkeep⟩
    exact ⟨e, List.mem_filter.mpr ⟨he, hkeep⟩, hkey, rfl⟩
  · rintro ⟨e, he, hkey, rfl⟩
    obtain ⟨he, hkeep⟩ := List.mem_filter.mp he
    exact ⟨⟨e, he, hkey, rfl⟩, hkeep⟩

theorem Remembers.step (h : d.Remembers) (act : UpdateAct D) :
    (d.step mpd real act).Remembers := by
  cases act with
  | call args padding now => exact h.call args padding now
  | timer now => exact h.timer now
  | other s => exact h

theorem remembers_run (s : Statics D) (acts : List (UpdateAct D)) :
    (run mpd real s acts).Remembers := by
  unfold run
  have hinit : (init s).Remembers := by simp [Remembers, init, accepted]
  generalize init s = d at hinit ⊢
  induction acts generalizing d with
  | nil => exact hinit
  | cons act acts ih => exact ih _ (hinit.step act)

/-- An accepted update has the key of a call exactly when it is the same update. -/
theorem TellsApart.key_eq_iff {args : UpdateArgs D} {padding : ℕ}
    (h : d.TellsApart args padding) {e : AcceptedUpdate} (he : e ∈ accepted d.past) :
    e.key = args.id.key padding ↔ e.id = args.id := by
  constructor
  · intro hkey
    have hfields := UpdateKey.mk.inj hkey
    obtain ⟨huser, hasset, hbusiness, hpadding, hid⟩ := hfields
    have hname := (h e he huser hasset hid).mpr ⟨hbusiness, hpadding⟩
    exact congr (congr (congr (congrArg UpdateId.mk huser) hasset) hname) hid
  · intro hid
    have hname := (h e he (congrArg UpdateId.userId hid) (congrArg UpdateId.asset hid)
      (congrArg UpdateId.businessId hid)).mp (congrArg UpdateId.business hid)
    rw [AcceptedUpdate.key, hid, hname.2]

end Invariant

/-- **Repeats.** After any run of calls, timers and other work of the engine, a call that tells its
update apart returns -1 exactly when an update with the same user, asset, business and business id
has been accepted and has not expired. -/
theorem repeat_iff {D : Type} (mpd : Mpd D) (real : Bool) (s : Statics D) (acts : List (UpdateAct D))
    (args : UpdateArgs D) (padding : ℕ) (now : ℚ)
    (h : (run mpd real s acts).TellsApart args padding) :
    (run mpd real s acts).ret mpd real args padding now = -1 ↔
      ∃ e ∈ accepted (run mpd real s acts).past, e.id = args.id := by
  rw [ret_eq_neg_one_iff]
  constructor
  · rintro ⟨t, ht⟩
    obtain ⟨e, he, hkey, -⟩ := (remembers_run s acts _ t).mp ht
    exact ⟨e, he, (h.key_eq_iff he).mp hkey⟩
  · rintro ⟨e, he, hid⟩
    exact ⟨e.createTime,
      (remembers_run s acts _ e.createTime).mpr ⟨e, he, (h.key_eq_iff he).mpr hid, rfl⟩⟩

end UpdateDesk

/-! ## Long names and other padding -/

/-- An engine that knows BTC and has nothing yet. -/
def bareStatics : Statics ℚ where
  ledger := ⟨(∅ : Dict String AssetType).insert "BTC" ⟨20, 8⟩, ∅, []⟩
  orderIdStart := 0
  dealsIdStart := 0
  trades := []
  history := []
  messages := []

/-- User 1 gets 1 BTC under the business id 1. -/
def credit (business : String) : UpdateArgs ℚ := ⟨1, "BTC", business, 1, 1, []⟩

/-- A business of 34 bytes, accepted at time 0. -/
def longCredit : List (UpdateAct ℚ) :=
  [.call (credit "deposit-of-the-cold-wallet-no-001A") 0 0]

/-- The update again, a minute later. -/
theorem longCredit_recognised :
    (UpdateDesk.run exactDecimal true bareStatics longCredit).ret exactDecimal true
      (credit "deposit-of-the-cold-wallet-no-001A") 0 60 = -1 :=
  (UpdateDesk.repeat_iff exactDecimal true bareStatics longCredit _ 0 60
    (by unfold UpdateDesk.TellsApart; decide +kernel)).mpr (by decide +kernel)

/-- Another business with the same first 32 bytes is taken for a repeat. -/
theorem longNames_hidden :
    let d := UpdateDesk.run exactDecimal true bareStatics longCredit
    let args := credit "deposit-of-the-cold-wallet-no-001B"
    d.ret exactDecimal true args 0 60 = -1 ∧ ∀ e ∈ accepted d.past, e.id ≠ args.id := by
  decide +kernel

/-- The same update with other bytes in the padding is not. -/
theorem padding_missed :
    let d := UpdateDesk.run exactDecimal true bareStatics [.call (credit "deposit") 0 0]
    d.ret exactDecimal true (credit "deposit") 1 60 = 0 ∧
      ∃ e ∈ accepted d.past, e.id = (credit "deposit").id := by
  decide +kernel

end ViabtcExchange
