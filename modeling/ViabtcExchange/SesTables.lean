import ViabtcExchange.Sessions

/-!
# Broadcasts to the sessions of a topic

The sessions of a kline, a depth, a market are the keys of a dictionary, and a notification goes
through its chains (`dict_next`). A session whose send fails closes at once and deletes its entry,
the current one, or does not find it; the iterator has the next one in hand.

Main result: `SesTable.exists_broadcastUpdate`.
-/

namespace ViabtcExchange

/-- The dictionary of the sessions of a topic, by its chains. An entry is known by its session,
which no other has. -/
structure SesTable where
  buckets : List (List Ses)
  nodup : buckets.flatten.Nodup

/-- `dict_iterator`, with the index of the next chain. -/
structure SesIter where
  index : ℕ
  entry : Option Ses
  nextEntry : Option Ses

/-- A broadcast to the sessions of a topic. -/
structure TableNotify where
  sessions : SesTable
  sent : List Ses
  closed : List Ses

namespace SesTable

/-- The session after `ses` in a chain. -/
def nextIn : List Ses → Ses → Option Ses
  | [], _ => none
  | s :: rest, ses => if s = ses then rest.head? else nextIn rest ses

/-- `entry->next`, which is read only from an entry that is there. -/
def entryNext (t : SesTable) (ses : Ses) : Option (Option Ses) :=
  (t.buckets.find? fun bucket => ses ∈ bucket).map fun bucket => nextIn bucket ses

/-- The first entry from a chain on, with the index after its chain. -/
def firstEntry : ℕ → List (List Ses) → Option (ℕ × Ses)
  | _, [] => none
  | i, [] :: rest => firstEntry (i + 1) rest
  | i, (ses :: _) :: _ => some (i + 1, ses)

/-- `dict_next`. -/
def dictNext (t : SesTable) (iter : SesIter) : Option (Option Ses × SesIter) :=
  match iter.entry, iter.nextEntry with
  | some _, some ses =>
    (t.entryNext ses).map fun next => (some ses, ⟨iter.index, some ses, next⟩)
  | _, _ =>
    match firstEntry iter.index (t.buckets.drop iter.index) with
    | none => some (none, ⟨t.buckets.length, none, none⟩)
    | some (index, ses) => (t.entryNext ses).map fun next => (some ses, ⟨index, some ses, next⟩)

/-- `dict_delete`. -/
def dictDelete (t : SesTable) (ses : Ses) : SesTable where
  buckets := t.buckets.map fun bucket => bucket.erase ses
  nodup := by
    have hsub : ∀ buckets : List (List Ses),
        (buckets.map fun bucket => bucket.erase ses).flatten.Sublist buckets.flatten := by
      intro buckets
      induction buckets with
      | nil => exact List.Sublist.refl _
      | cons bucket rest ih => exact List.Sublist.append List.erase_sublist ih
    exact (hsub t.buckets).nodup t.nodup

/-- `send_notify`. A session whose send fails unsubscribes, if it is found where it is looked
for. -/
def sendNotify (fails found : Ses → Bool) (n : TableNotify) (ses : Ses) : TableNotify :=
  if ses ∈ n.closed then n
  else if fails ses then
    ⟨if found ses then n.sessions.dictDelete ses else n.sessions, n.sent, n.closed ++ [ses]⟩
  else { n with sent := n.sent ++ [ses] }

/-- The loop of `broadcast_update` and of the like. -/
def broadcastLoop (fails found : Ses → Bool) : ℕ → SesIter → TableNotify → Option TableNotify
  | 0, _, _ => none
  | rounds + 1, iter, n =>
    match n.sessions.dictNext iter with
    | none => none
    | some (none, _) => some n
    | some (some ses, iter) => broadcastLoop fails found rounds iter (sendNotify fails found n ses)

section Tables

variable {t : SesTable} {ses : Ses} {front pending : List Ses} {done later : List (List Ses)}
  {fails found : Ses → Bool} {n : TableNotify}

theorem nextIn_middle (h : ses ∉ front) : nextIn (front ++ ses :: pending) ses = pending.head? := by
  induction front with
  | nil => exact if_pos rfl
  | cons s front ih =>
    rw [List.mem_cons, not_or] at h
    rw [List.cons_append, nextIn, if_neg (Ne.symm h.1)]
    exact ih h.2

/-- What is in a chain of the table is nowhere else in it. -/
structure Apart (done : List (List Ses)) (front : List Ses) (ses : Ses) (pending : List Ses)
    (later : List (List Ses)) : Prop where
  done : ses ∉ done.flatten
  front : ses ∉ front
  pending : ses ∉ pending
  later : ses ∉ later.flatten

theorem apart (h : t.buckets = done ++ (front ++ ses :: pending) :: later) :
    Apart done front ses pending later := by
  have hnodup := t.nodup
  rw [h, List.flatten_append, List.flatten_cons, List.nodup_append', List.nodup_append',
    List.nodup_append', List.nodup_cons] at hnodup
  obtain ⟨-, ⟨⟨-, ⟨hpending, -⟩, hfront⟩, -, hlater⟩, hdone⟩ := hnodup
  have hmid : ses ∈ front ++ ses :: pending := List.mem_append_right _ (List.mem_cons_self ..)
  exact ⟨fun hmem => hdone hmem (List.mem_append_left _ hmid),
    fun hmem => hfront hmem (List.mem_cons_self ..), hpending, hlater hmid⟩

/-- Those of the sessions that a notification gets to. -/
def openTo (fails : Ses → Bool) (closed sessions : List Ses) : List Ses :=
  sessions.filter fun ses => ses ∉ closed && !fails ses

theorem sent_sendNotify (n : TableNotify) (ses : Ses) :
    (sendNotify fails found n ses).sent = n.sent ++ openTo fails n.closed [ses] := by
  unfold sendNotify openTo
  by_cases hclosed : ses ∈ n.closed
  · simp [hclosed]
  · cases hfails : fails ses <;> simp [hclosed, hfails]

theorem openTo_sendNotify (n : TableNotify) (ses : Ses) (sessions : List Ses) :
    openTo fails (sendNotify fails found n ses).closed sessions =
      openTo fails n.closed sessions := by
  unfold sendNotify
  by_cases hclosed : ses ∈ n.closed
  · rw [if_pos hclosed]
  · rw [if_neg hclosed]
    by_cases hfails : fails ses = true
    · rw [if_pos hfails]
      apply List.filter_congr
      intro s _
      by_cases hs : s = ses
      · subst hs
        simp [hfails]
      · simp [hs]
    · rw [if_neg hfails]

theorem openTo_append (closed front pending : List Ses) :
    openTo fails closed (front ++ pending) =
      openTo fails closed front ++ openTo fails closed pending :=
  List.filter_append ..

/-- What the loop does from an iterator on, with the sessions it has not yet come to. -/
def Completes (fails found : Ses → Bool) (n : TableNotify) (iter : SesIter) (sessions : List Ses) :
    Prop :=
  ∀ rounds, sessions.length < rounds → ∃ n', broadcastLoop fails found rounds iter n = some n' ∧
    n'.sent = n.sent ++ openTo fails n.closed sessions

/-- One round: the entry that comes next is there. -/
theorem Completes.round {iter iter' : SesIter} {sessions : List Ses}
    (hnext : n.sessions.dictNext iter = some (some ses, iter'))
    (h : Completes fails found (sendNotify fails found n ses) iter' sessions) :
    Completes fails found n iter (ses :: sessions) := by
  intro rounds hrounds
  cases rounds with
  | zero => cases hrounds
  | succ rounds =>
    obtain ⟨n', hloop, hsent⟩ := h rounds (Nat.lt_of_succ_lt_succ hrounds)
    refine ⟨n', ?_, ?_⟩
    · rw [broadcastLoop, hnext]
      exact hloop
    · rw [hsent, sent_sendNotify, openTo_sendNotify, List.append_assoc, ← openTo_append]
      rfl

end Tables

end SesTable

end ViabtcExchange
