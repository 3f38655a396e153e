import ViabtcExchange.Lib.Dict

/-!
# Answers that are kept for a while

A cache keeps what was answered under what was asked, with the time. An answer that is too old is
dropped when it is asked for. What a caller may rely on is `Right.answer`: an answer from the cache
was right at some time that is not too long ago.

`CachingServer` is a server that first looks whether it answers at all, then into its cache, and
only then makes an answer. `answer_recent` says of a whole run what its answers are: the errors are
those it would make now, the others those it would have made not too long ago.
-/

namespace ViabtcExchange

abbrev TimedCache (K R : Type) : Type := Dict K (ℚ × R)

namespace TimedCache

variable {K R : Type} [DecidableEq K]

/-- What is kept under a key, and the cache without it if it is too old. -/
def lookup (timeout now : ℚ) (cache : TimedCache K R) (key : K) : TimedCache K R × Option R :=
  match cache.find key with
  | none => (cache, none)
  | some (time, result) =>
    if now - time > timeout then (cache.erase key, none) else (cache, some result)

def keep (now : ℚ) (cache : TimedCache K R) (key : K) (result : R) : TimedCache K R :=
  cache.insert key (now, result)

/-- Whatever is kept was `right` when it was put there. -/
def Right (right : ℚ → K → R → Prop) (cache : TimedCache K R) : Prop :=
  ∀ key time result, cache.find key = some (time, result) → right time key result

variable {right right' : ℚ → K → R → Prop} {cache : TimedCache K R} {timeout now : ℚ} {key : K}
  {result : R}

theorem right_empty : Right right (∅ : TimedCache K R) := fun _ _ _ h => by simp at h

theorem Right.imp (h : Right right cache)
    (himp : ∀ time key result, right time key result → right' time key result) :
    Right right' cache := fun key time result hfind => himp _ _ _ (h key time result hfind)

theorem Right.lookup (h : Right right cache) (timeout now : ℚ) (key : K) :
    Right right (cache.lookup timeout now key).1 := by
  unfold TimedCache.lookup
  cases hfind : cache.find key with
  | none => exact h
  | some entry =>
    dsimp only
    split_ifs
    · intro key' time result hfind'
      rw [Dict.find_erase] at hfind'
      split_ifs at hfind'
      exact h key' time result hfind'
    · exact h

theorem Right.keep (h : Right right cache) (hresult : right now key result) :
    Right right (cache.keep now key result) := by
  intro key' time result' hfind
  unfold TimedCache.keep at hfind
  rw [Dict.find_insert] at hfind
  split_ifs at hfind with hkey
  · obtain ⟨rfl, rfl⟩ := Prod.mk.inj (Option.some.inj hfind)
    exact hkey ▸ hresult
  · exact h key' time result' hfind

/-- What the cache answers was right not too long ago. -/
theorem Right.answer (h : Right right cache)
    (hlookup : (cache.lookup timeout now key).2 = some result) :
    ∃ time, now - timeout ≤ time ∧ right time key result := by
  unfold TimedCache.lookup at hlookup
  cases hfind : cache.find key with
  | none => simp [hfind] at hlookup
  | some entry =>
    obtain ⟨time, kept⟩ := entry
    simp only [hfind] at hlookup
    split_ifs at hlookup with hold
    obtain rfl := Option.some.inj hlookup
    exact ⟨time, by linarith, h key time kept hfind⟩

end TimedCache

/-! ## A server with a cache -/

/-- What a server makes of its state, the time and what it is asked. What passes `accept` is kept
under its `key`, if it has one. -/
structure CachingServer (S Q K E R : Type) where
  timeout : ℚ
  accept : S → ℚ → Q → Except E Unit
  key : Q → Option K
  compute : S → ℚ → Q → Except E R

namespace CachingServer

variable {S Q K E R : Type} (v : CachingServer S Q K E R)

/-- The answer without a cache. -/
def fresh (s : S) (now : ℚ) (q : Q) : Except E R :=
  match v.accept s now q with
  | .error e => .error e
  | .ok () => v.compute s now q

/-- An answer that the server could have made at `time`, and was in a state to. -/
def WasRight (past : List (ℚ × S)) (time : ℚ) (key : K) (result : R) : Prop :=
  ∃ s, (time, s) ∈ past ∧ ∃ q, v.key q = some key ∧ v.fresh s time q = .ok result

theorem WasRight.cons {v : CachingServer S Q K E R} {past : List (ℚ × S)} {entry : ℚ × S}
    (time : ℚ) (key : K) (result : R) (h : v.WasRight past time key result) :
    v.WasRight (entry :: past) time key result := by
  obtain ⟨s, hs, hq⟩ := h
  exact ⟨s, List.mem_cons_of_mem _ hs, hq⟩

theorem fresh_of_accept {v : CachingServer S Q K E R} {s : S} {now : ℚ} {q : Q}
    (h : v.accept s now q = .ok ()) :
    v.fresh s now q = v.compute s now q := by
  unfold fresh
  rw [h]

theorem compute_of_fresh {v : CachingServer S Q K E R} {s : S} {now : ℚ} {q : Q} {result : R}
    (h : v.fresh s now q = .ok result) : v.compute s now q = .ok result := by
  unfold fresh at h
  cases haccept : v.accept s now q with
  | error e => simp [haccept] at h
  | ok u => simpa [haccept] using h

variable [DecidableEq K]

/-- The answer, and the cache after it. -/
def answer (s : S) (now : ℚ) (cache : TimedCache K R) (q : Q) : TimedCache K R × Except E R :=
  match v.accept s now q with
  | .error e => (cache, .error e)
  | .ok () =>
    match v.key q with
    | none => (cache, v.compute s now q)
    | some key =>
      match cache.lookup v.timeout now key with
      | (cache, some result) => (cache, .ok result)
      | (cache, none) =>
        match v.compute s now q with
        | .error e => (cache, .error e)
        | .ok result => (cache.keep now key result, .ok result)

/-- A key says what is asked, and whether an answer can be made does not depend on more than
that. -/
structure Lawful : Prop where
  key_inj : ∀ {q q' key}, v.key q = some key → v.key q' = some key → q = q'
  stable : ∀ {q s s' now now' result e}, v.key q ≠ none → v.compute s now q = .ok result →
    v.accept s' now' q = .ok () → v.compute s' now' q ≠ .error e

/-- A server in a run. `past` are the states that it was in, each with the time. -/
structure World (S K R : Type) where
  state : S
  clock : ℚ
  cache : TimedCache K R
  past : List (ℚ × S)

/-- The state changes as `next` says, time goes by, something is asked, the cache is emptied. -/
inductive Step (next : S → S → Prop) : World S K R → World S K R → Prop
  | change {w : World S K R} {s : S} : next w.state s →
      Step next w { w with state := s, past := (w.clock, s) :: w.past }
  | wait {w : World S K R} {now : ℚ} : w.clock ≤ now →
      Step next w { w with clock := now, past := (now, w.state) :: w.past }
  | ask {w : World S K R} (q : Q) :
      Step next w { w with cache := (v.answer w.state w.clock w.cache q).1 }
  | clear {w : World S K R} : Step next w { w with cache := ∅ }

/-- The worlds that a run gets to from a state that is `first`. -/
inductive Reached (next : S → S → Prop) (first : S → Prop) : World S K R → Prop
  | start {s : S} {clock : ℚ} : first s → Reached next first ⟨s, clock, ∅, [(clock, s)]⟩
  | step {w w' : World S K R} : Reached next first w → v.Step next w w' → Reached next first w'

structure Good (w : World S K R) : Prop where
  now : (w.clock, w.state) ∈ w.past
  past : ∀ entry ∈ w.past, entry.1 ≤ w.clock
  cache : w.cache.Right (v.WasRight w.past)

variable {v} {next : S → S → Prop} {first : S → Prop} {w w' : World S K R}

/-- The cache stays right, whatever is asked. -/
theorem right_answer {s : S} {now : ℚ} {cache : TimedCache K R} {past : List (ℚ × S)}
    (hnow : (now, s) ∈ past) (h : cache.Right (v.WasRight past)) (q : Q) :
    (v.answer s now cache q).1.Right (v.WasRight past) := by
  unfold answer
  cases haccept : v.accept s now q with
  | error e => exact h
  | ok u =>
    cases hkey : v.key q with
    | none => exact h
    | some key =>
      have hlookup := h.lookup v.timeout now key
      rcases hcase : cache.lookup v.timeout now key with ⟨cache', _ | result⟩
      · rw [hcase] at hlookup
        simp only [hcase]
        cases hcompute : v.compute s now q with
        | error e => exact hlookup
        | ok result =>
          refine hlookup.keep ⟨s, hnow, q, hkey, ?_⟩
          rw [fresh_of_accept haccept, hcompute]
      · rw [hcase] at hlookup
        simp only [hcase]
        exact hlookup

theorem Good.step (h : v.Good w) (hstep : v.Step next w w') : v.Good w' := by
  cases hstep with
  | change hnext =>
    refine ⟨List.mem_cons_self, fun entry hentry => ?_, h.cache.imp WasRight.cons⟩
    rcases List.mem_cons.mp hentry with rfl | hentry
    · exact le_rfl
    · exact h.past entry hentry
  | wait hle =>
    refine ⟨List.mem_cons_self, fun entry hentry => ?_, h.cache.imp WasRight.cons⟩
    rcases List.mem_cons.mp hentry with rfl | hentry
    · exact le_rfl
    · exact (h.past entry hentry).trans hle
  | ask q => exact ⟨h.now, h.past, right_answer h.now h.cache q⟩
  | clear => exact ⟨h.now, h.past, TimedCache.right_empty⟩

theorem Reached.good (h : v.Reached next first w) : v.Good w := by
  induction h with
  | start hfirst =>
    refine ⟨List.mem_singleton_self _, fun entry hentry => ?_, TimedCache.right_empty⟩
    rw [List.mem_singleton.mp hentry]
  | step _ hstep ih => exact ih.step hstep

/-- Every state of a run has what every step keeps. -/
theorem Reached.invariant {I : S → Prop} (h : v.Reached next first w) (hfirst : ∀ s, first s → I s)
    (hnext : ∀ s s', I s → next s s' → I s') : I w.state ∧ ∀ entry ∈ w.past, I entry.2 := by
  induction h with
  | start hs => exact ⟨hfirst _ hs, by simpa using hfirst _ hs⟩
  | step _ hstep ih =>
    obtain ⟨hstate, hpast⟩ := ih
    cases hstep with
    | change hs => exact ⟨hnext _ _ hstate hs, List.forall_mem_cons.mpr ⟨hnext _ _ hstate hs, hpast⟩⟩
    | wait _ => exact ⟨hstate, List.forall_mem_cons.mpr ⟨hstate, hpast⟩⟩
    | ask _ => exact ⟨hstate, hpast⟩
    | clear => exact ⟨hstate, hpast⟩

/-- What an answer of a run is. -/
theorem answer_recent (hv : v.Lawful) (htimeout : 0 ≤ v.timeout) (h : v.Good w) (q : Q) :
    match (v.answer w.state w.clock w.cache q).2 with
    | .error e => v.fresh w.state w.clock q = .error e
    | .ok result => (∃ result', v.fresh w.state w.clock q = .ok result') ∧
        ∃ time s, (time, s) ∈ w.past ∧ w.clock - v.timeout ≤ time ∧ time ≤ w.clock ∧
          v.fresh s time q = .ok result := by
  have hnow : ∀ result, v.fresh w.state w.clock q = .ok result → ∃ time s, (time, s) ∈ w.past ∧
      w.clock - v.timeout ≤ time ∧ time ≤ w.clock ∧ v.fresh s time q = .ok result :=
    fun result hfresh => ⟨w.clock, w.state, h.now, by linarith, le_rfl, hfresh⟩
  unfold answer
  cases haccept : v.accept w.state w.clock q with
  | error e => simp [fresh, haccept]
  | ok u =>
    have hfresh := fresh_of_accept haccept
    cases hkey : v.key q with
    | none =>
      dsimp only
      cases hcompute : v.compute w.state w.clock q with
      | error e => exact hfresh.trans hcompute
      | ok result => exact ⟨⟨result, hfresh.trans hcompute⟩, hnow result (hfresh.trans hcompute)⟩
    | some key =>
      dsimp only
      rcases hcase : w.cache.lookup v.timeout w.clock key with ⟨cache', _ | result⟩
      · dsimp only
        cases hcompute : v.compute w.state w.clock q with
        | error e => exact hfresh.trans hcompute
        | ok result => exact ⟨⟨result, hfresh.trans hcompute⟩, hnow result (hfresh.trans hcompute)⟩
      · -- what is in the cache was asked for with the same words
        obtain ⟨time, hrecent, s, hs, q', hkey', hright⟩ :=
          h.cache.answer (congrArg Prod.snd hcase)
        obtain rfl := hv.key_inj hkey hkey'
        dsimp only
        refine ⟨?_, time, s, hs, hrecent, h.past _ hs, hright⟩
        have hcompute := compute_of_fresh hright
        cases hcompute' : v.compute w.state w.clock q with
        | error e => exact absurd hcompute' (hv.stable (by simp [hkey]) hcompute haccept)
        | ok result' => exact ⟨result', hfresh.trans hcompute'⟩

end CachingServer

end ViabtcExchange
