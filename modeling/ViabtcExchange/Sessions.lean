import ViabtcExchange.Lib.Dict

/-!
# Connections (`nw_svr.c`)

A connection lives at an address, and has an id that no other connection had before. Closed, it has
the id 0, and its address may become that of another.
-/

namespace ViabtcExchange

/-- The address of an `nw_ses`. -/
abbrev Ses : Type := ℕ

/-- An open connection, with what it has in `privdata`. The id counts up from 1 and is taken not to
come to its end. -/
structure Client (I : Type) where
  id : ℕ
  privdata : I
deriving Repr

/-- `nw_svr`, of its open connections. -/
structure NwSvr (I : Type) where
  idStart : ℕ
  clients : Dict Ses (Client I)
  positive : ∀ ses conn, clients.find ses = some conn → 0 < conn.id
  below : ∀ ses conn, clients.find ses = some conn → conn.id < idStart
  distinct : ∀ ses ses' conn conn', clients.find ses = some conn → clients.find ses' = some conn' →
    conn.id = conn'.id → ses = ses'

namespace NwSvr

variable {I : Type}

def create : NwSvr I where
  idStart := 0
  clients := ∅
  positive _ _ h := by
    rw [Dict.find_empty] at h
    cases h
  below _ _ h := by
    rw [Dict.find_empty] at h
    cases h
  distinct _ _ _ _ h := by
    rw [Dict.find_empty] at h
    cases h

/-- `ses->id`. -/
def id (svr : NwSvr I) (ses : Ses) : ℕ := ((svr.clients.find ses).map Client.id).getD 0

/-- The id of the next connection: 0 is passed over. -/
def nextId (svr : NwSvr I) : ℕ := if svr.idStart = 0 then 1 else svr.idStart

theorem nextId_pos (svr : NwSvr I) : 0 < svr.nextId := by
  unfold nextId
  split_ifs <;> omega

theorem idStart_le (svr : NwSvr I) : svr.idStart ≤ svr.nextId := by
  unfold nextId
  split_ifs <;> omega

/-- `nw_svr_add_clt`. -/
def addClt (svr : NwSvr I) (ses : Ses) (privdata : I) : NwSvr I where
  idStart := svr.nextId + 1
  clients := svr.clients.insert ses ⟨svr.nextId, privdata⟩
  positive ses' conn h := by
    rw [Dict.find_insert] at h
    split_ifs at h
    · obtain rfl := Option.some.inj h
      exact svr.nextId_pos
    · exact svr.positive ses' conn h
  below ses' conn h := by
    rw [Dict.find_insert] at h
    split_ifs at h
    · obtain rfl := Option.some.inj h
      exact Nat.lt_succ_self _
    · have hlt := svr.below ses' conn h
      have hle := svr.idStart_le
      omega
  distinct ses₁ ses₂ conn₁ conn₂ h₁ h₂ hid := by
    have hle := svr.idStart_le
    rw [Dict.find_insert] at h₁ h₂
    split_ifs at h₁ h₂ with hses₁ hses₂ hses₂
    · exact hses₁.trans hses₂.symm
    · obtain rfl := Option.some.inj h₁
      have hlt := svr.below ses₂ conn₂ h₂
      dsimp only at hid
      omega
    · obtain rfl := Option.some.inj h₂
      have hlt := svr.below ses₁ conn₁ h₁
      dsimp only at hid
      omega
    · exact svr.distinct ses₁ ses₂ conn₁ conn₂ h₁ h₂ hid

/-- `nw_svr_close_clt`, but for what the owner of the server does when a connection closes. -/
def closeClt (svr : NwSvr I) (ses : Ses) : NwSvr I where
  idStart := svr.idStart
  clients := svr.clients.erase ses
  positive ses' conn h := by
    rw [Dict.find_erase] at h
    split_ifs at h
    exact svr.positive ses' conn h
  below ses' conn h := by
    rw [Dict.find_erase] at h
    split_ifs at h
    exact svr.below ses' conn h
  distinct ses₁ ses₂ conn₁ conn₂ h₁ h₂ hid := by
    rw [Dict.find_erase] at h₁ h₂
    split_ifs at h₁ h₂
    exact svr.distinct ses₁ ses₂ conn₁ conn₂ h₁ h₂ hid

/-- Put other data into the `privdata` of a connection. -/
def setPrivdata (svr : NwSvr I) (ses : Ses) (f : I → I) : NwSvr I where
  idStart := svr.idStart
  clients :=
    match svr.clients.find ses with
    | none => svr.clients
    | some conn => svr.clients.insert ses { conn with privdata := f conn.privdata }
  positive ses' conn h := by
    cases hfind : svr.clients.find ses with
    | none =>
      rw [hfind] at h
      exact svr.positive ses' conn h
    | some old =>
      rw [hfind, Dict.find_insert] at h
      split_ifs at h
      · obtain rfl := Option.some.inj h
        exact svr.positive ses old hfind
      · exact svr.positive ses' conn h
  below ses' conn h := by
    cases hfind : svr.clients.find ses with
    | none =>
      rw [hfind] at h
      exact svr.below ses' conn h
    | some old =>
      rw [hfind, Dict.find_insert] at h
      split_ifs at h
      · obtain rfl := Option.some.inj h
        exact svr.below ses old hfind
      · exact svr.below ses' conn h
  distinct ses₁ ses₂ conn₁ conn₂ h₁ h₂ hid := by
    cases hfind : svr.clients.find ses with
    | none =>
      rw [hfind] at h₁ h₂
      exact svr.distinct ses₁ ses₂ conn₁ conn₂ h₁ h₂ hid
    | some old =>
      rw [hfind, Dict.find_insert] at h₁ h₂
      split_ifs at h₁ h₂ with hses₁ hses₂ hses₂
      · exact hses₁.trans hses₂.symm
      · obtain rfl := Option.some.inj h₁
        exact hses₁.trans (svr.distinct ses ses₂ old conn₂ hfind h₂ hid)
      · obtain rfl := Option.some.inj h₂
        exact (svr.distinct ses₁ ses conn₁ old h₁ hfind hid).trans hses₂.symm
      · exact svr.distinct ses₁ ses₂ conn₁ conn₂ h₁ h₂ hid

variable {svr : NwSvr I} {ses ses' : Ses} {privdata : I} {f : I → I}

theorem find_addClt : (svr.addClt ses privdata).clients.find ses' =
    if ses' = ses then some ⟨svr.nextId, privdata⟩ else svr.clients.find ses' :=
  Dict.find_insert ..

theorem find_closeClt : (svr.closeClt ses).clients.find ses' =
    if ses' = ses then none else svr.clients.find ses' :=
  Dict.find_erase ..

theorem find_setPrivdata : (svr.setPrivdata ses f).clients.find ses' =
    if ses' = ses then (svr.clients.find ses').map fun conn =>
      { conn with privdata := f conn.privdata }
    else svr.clients.find ses' := by
  unfold setPrivdata
  dsimp only
  by_cases hses : ses' = ses
  · subst hses
    rw [if_pos rfl]
    cases hfind : svr.clients.find ses' with
    | none => exact hfind
    | some conn => rw [Dict.find_insert, if_pos rfl, Option.map_some]
  · rw [if_neg hses]
    cases svr.clients.find ses with
    | none => rfl
    | some conn => rw [Dict.find_insert, if_neg hses]

/-- The id is 0 when the connection is closed, and only then. -/
theorem id_eq_zero : svr.id ses = 0 ↔ svr.clients.find ses = none := by
  unfold id
  cases hfind : svr.clients.find ses with
  | none => exact iff_of_true rfl rfl
  | some conn =>
    have hpos := svr.positive ses conn hfind
    refine iff_of_false (fun hzero => ?_) (by simp)
    rw [Option.map_some, Option.getD_some] at hzero
    omega

end NwSvr

end ViabtcExchange
