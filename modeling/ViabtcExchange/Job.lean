import Mathlib.Data.List.Perm.Basic
import Mathlib.Data.List.Perm.Subperm
import Mathlib.Tactic

/-!
# The job queue (`nw_job.c`)

Requests are added at the tail of a queue and taken from its head by a number of threads, each of
which runs `on_job` on the request it has taken and then hands it to the list of replies. The
threads are interleaved in any way: a `Job.Move` is one thread doing one of the two things it does
under the lock, and a thread may stay in `on_job` for as long as it likes.

`nw_job_release` sets a flag and joins the threads. A thread looks at the flag before it looks at
the queue, so what is in the queue at that moment is never taken.

Main results: `Job.all_moves` (a job neither loses nor doubles a request), `Job.requests_moves`
(how many are left in the queue) and `Job.fini_spec`.
-/

namespace ViabtcExchange

/-- Where a thread is: at the head of its loop, in `on_job`, or behind the loop. -/
inductive Thread (ρ : Type)
  | ready
  | busy (request : ρ)
  | gone
deriving DecidableEq, Repr

/-- The request a thread is at. -/
def Thread.running {ρ : Type} : Thread ρ → List ρ
  | .busy request => [request]
  | _ => []

/-- `replies` keeps every request `on_job` has returned from. -/
structure Job (ρ : Type) where
  requests : List ρ
  shutdown : Bool
  threads : List (Thread ρ)
  replies : List ρ

namespace Job

/-- One turn of one thread. `wake`: it takes the lock, and leaves the loop or takes a request.
`reply`: `on_job` has returned. -/
inductive Move
  | wake (i : ℕ)
  | reply (i : ℕ)
deriving DecidableEq, Repr

variable {ρ : Type}

def create (threadCount : ℕ) : Job ρ := ⟨[], false, List.replicate threadCount .ready, []⟩

def add (j : Job ρ) (request : ρ) : Job ρ := { j with requests := j.requests ++ [request] }

/-- `thread_routine`. A thread that finds nothing to do waits. -/
def move (j : Job ρ) : Move → Option (Job ρ)
  | .wake i =>
    match j.threads[i]? with
    | some .ready =>
      if j.shutdown then some { j with threads := j.threads.set i .gone }
      else
        match j.requests with
        | [] => none
        | request :: requests =>
          some { j with requests := requests, threads := j.threads.set i (.busy request) }
    | _ => none
  | .reply i =>
    match j.threads[i]? with
    | some (.busy request) =>
      some { j with threads := j.threads.set i .ready, replies := j.replies ++ [request] }
    | _ => none

def moves (j : Job ρ) (ms : List Move) : Option (Job ρ) := ms.foldlM move j

/-- Every thread has left its loop. -/
def joined (j : Job ρ) : Bool := j.threads.all fun | .gone => true | _ => false

/-- Every request the job has been given: answered, running and waiting. -/
def all (j : Job ρ) : List ρ := j.replies ++ j.threads.flatMap Thread.running ++ j.requests

/-! ## What a thread does -/

theorem move_wake {j j' : Job ρ} {i : ℕ} (h : j.move (.wake i) = some j') :
    j.threads[i]? = some .ready ∧
      (j.shutdown = true ∧ j' = { j with threads := j.threads.set i .gone } ∨
        ∃ request requests, j.shutdown = false ∧ j.requests = request :: requests ∧
          j' = { j with requests := requests, threads := j.threads.set i (.busy request) }) := by
  simp only [move] at h
  split at h
  · rename_i hready
    refine ⟨hready, ?_⟩
    by_cases hdown : j.shutdown = true
    · rw [if_pos hdown] at h
      exact Or.inl ⟨hdown, (Option.some.inj h).symm⟩
    · rw [if_neg hdown] at h
      split at h
      · cases h
      · rename_i request requests hreq
        exact Or.inr ⟨request, requests, by simpa using hdown, hreq, (Option.some.inj h).symm⟩
  · cases h

theorem move_reply {j j' : Job ρ} {i : ℕ} (h : j.move (.reply i) = some j') :
    ∃ request, j.threads[i]? = some (.busy request) ∧
      j' = { j with threads := j.threads.set i .ready, replies := j.replies ++ [request] } := by
  simp only [move] at h
  split at h
  · rename_i request hbusy
    exact ⟨request, hbusy, (Option.some.inj h).symm⟩
  · cases h

/-- What runs, split at one thread. -/
theorem running_set {threads : List (Thread ρ)} {i : ℕ} {t : Thread ρ}
    (h : threads[i]? = some t) :
    ∃ front rear, threads.flatMap Thread.running = front ++ t.running ++ rear ∧
      ∀ t', (threads.set i t').flatMap Thread.running = front ++ t'.running ++ rear := by
  obtain ⟨hi, ht⟩ := List.getElem?_eq_some_iff.mp h
  refine ⟨(threads.take i).flatMap Thread.running, (threads.drop (i + 1)).flatMap Thread.running,
    ?_, fun t' => ?_⟩
  · conv_lhs => rw [← List.take_append_drop i threads, List.drop_eq_getElem_cons hi, ht]
    simp
  · rw [List.set_eq_take_append_cons_drop, if_pos hi]
    simp

@[simp] theorem all_add (j : Job ρ) (request : ρ) : (j.add request).all = j.all ++ [request] := by
  simp [all, add]

@[simp] theorem all_create (n : ℕ) : (create n : Job ρ).all = [] := by
  simp [all, create, Thread.running]

/-- A turn of a thread moves a request on, or nothing. -/
theorem all_move {j j' : Job ρ} {m : Move} (h : j.move m = some j') : j'.all.Perm j.all := by
  cases m with
  | wake i =>
    obtain ⟨hready, ⟨-, rfl⟩ | ⟨request, requests, -, hreq, rfl⟩⟩ := move_wake h
    · obtain ⟨front, rear, hold, hset⟩ := running_set hready
      simp [all, hold, hset, Thread.running]
    · obtain ⟨front, rear, hold, hset⟩ := running_set hready
      simp only [all, hold, hset, hreq, Thread.running, List.append_assoc, List.nil_append,
        List.singleton_append]
      refine List.Perm.append_left _ (List.Perm.append_left _ ?_)
      exact List.perm_middle.symm
  | reply i =>
    obtain ⟨request, hbusy, rfl⟩ := move_reply h
    obtain ⟨front, rear, hold, hset⟩ := running_set hbusy
    simp only [all, hold, hset, Thread.running, List.append_assoc, List.nil_append,
      List.cons_append]
    refine List.Perm.append_left _ ?_
    exact List.perm_middle.symm

/-- With one thread the requests stay in their order. -/
theorem all_move_one {j j' : Job ρ} {m : Move} (hone : j.threads.length = 1)
    (h : j.move m = some j') : j'.all = j.all := by
  obtain ⟨t, ht⟩ := List.length_eq_one_iff.mp hone
  cases m with
  | wake i =>
    obtain ⟨hready, ⟨-, rfl⟩ | ⟨request, requests, -, hreq, rfl⟩⟩ := move_wake h
    all_goals
      obtain ⟨hi, rfl⟩ : i = 0 ∧ t = .ready := by
        rw [ht, List.getElem?_singleton] at hready
        split at hready <;> simp_all
      subst hi
    · simp [all, ht, Thread.running]
    · simp [all, ht, hreq, Thread.running]
  | reply i =>
    obtain ⟨request, hbusy, rfl⟩ := move_reply h
    obtain ⟨hi, rfl⟩ : i = 0 ∧ t = .busy request := by
      rw [ht, List.getElem?_singleton] at hbusy
      split at hbusy <;> simp_all
    subst hi
    simp [all, ht, Thread.running]

theorem threads_move {j j' : Job ρ} {m : Move} (h : j.move m = some j') :
    j'.threads.length = j.threads.length ∧ j'.shutdown = j.shutdown := by
  cases m with
  | wake i =>
    obtain ⟨-, ⟨-, rfl⟩ | ⟨_, _, -, -, rfl⟩⟩ := move_wake h <;> simp
  | reply i =>
    obtain ⟨_, -, rfl⟩ := move_reply h
    simp

theorem moves_cons {j j' : Job ρ} {m : Move} {ms : List Move} (h : j.moves (m :: ms) = some j') :
    ∃ j₁, j.move m = some j₁ ∧ j₁.moves ms = some j' := by
  simpa [moves, Option.bind_eq_some_iff] using h

theorem moves_nil {j j' : Job ρ} (h : j.moves [] = some j') : j' = j := by
  simpa [moves] using h.symm

/-- **A job neither loses nor doubles a request.** -/
theorem all_moves {ms : List Move} : ∀ {j j' : Job ρ}, j.moves ms = some j' →
    j'.all.Perm j.all := by
  induction ms with
  | nil =>
    intro j j' h
    rw [moves_nil h]
  | cons m ms ih =>
    intro j j' h
    obtain ⟨j₁, hm, hms⟩ := moves_cons h
    exact (ih hms).trans (all_move hm)

theorem shutdown_moves {ms : List Move} : ∀ {j j' : Job ρ}, j.moves ms = some j' →
    j'.shutdown = j.shutdown := by
  induction ms with
  | nil =>
    intro j j' h
    rw [moves_nil h]
  | cons m ms ih =>
    intro j j' h
    obtain ⟨j₁, hm, hms⟩ := moves_cons h
    rw [ih hms, (threads_move hm).2]

/-! ## Before and after the shutdown flag -/

/-- How often a thread comes to the head of its loop. -/
def wakes : List Move → ℕ
  | [] => 0
  | .wake _ :: ms => wakes ms + 1
  | .reply _ :: ms => wakes ms

/-- Before the flag is set, each thread that comes to the head of its loop takes a request. -/
theorem requests_moves {ms : List Move} : ∀ {j j' : Job ρ}, j.shutdown = false →
    j.moves ms = some j' →
      wakes ms ≤ j.requests.length ∧ j'.requests = j.requests.drop (wakes ms) := by
  induction ms with
  | nil =>
    intro j j' _ h
    rw [moves_nil h]
    exact ⟨Nat.zero_le _, rfl⟩
  | cons m ms ih =>
    intro j j' hdown h
    obtain ⟨j₁, hm, hms⟩ := moves_cons h
    have hdown₁ : j₁.shutdown = false := by rw [(threads_move hm).2, hdown]
    obtain ⟨hle, hdrop⟩ := ih hdown₁ hms
    cases m with
    | wake i =>
      obtain ⟨-, ⟨htrue, -⟩ | ⟨request, requests, -, hreq, rfl⟩⟩ := move_wake hm
      · rw [hdown] at htrue
        cases htrue
      · simp only [wakes, hreq, List.length_cons, List.drop_succ_cons]
        exact ⟨Nat.succ_le_succ hle, hdrop⟩
    | reply i =>
      obtain ⟨request, -, rfl⟩ := move_reply hm
      exact ⟨hle, hdrop⟩

/-- After the flag is set nothing is taken any more. -/
theorem requests_down {ms : List Move} : ∀ {j j' : Job ρ}, j.shutdown = true →
    j.moves ms = some j' → j'.requests = j.requests := by
  induction ms with
  | nil =>
    intro j j' _ h
    rw [moves_nil h]
  | cons m ms ih =>
    intro j j' hdown h
    obtain ⟨j₁, hm, hms⟩ := moves_cons h
    have hdown₁ : j₁.shutdown = true := by rw [(threads_move hm).2, hdown]
    rw [ih hdown₁ hms]
    cases m with
    | wake i =>
      obtain ⟨-, ⟨-, rfl⟩ | ⟨request, requests, hfalse, -, -⟩⟩ := move_wake hm
      · rfl
      · rw [hdown] at hfalse
        cases hfalse
    | reply i =>
      obtain ⟨request, -, rfl⟩ := move_reply hm
      rfl

/-- Up to the join: `sleep` is what the threads do while `usleep` sleeps, `join` what they do
after `nw_job_release` has set the flag. Nothing when the threads cannot do this, or have not all
left their loops at the end of it. -/
def fini (j : Job ρ) (sleep join : List Move) : Option (Job ρ) := do
  let j ← j.moves sleep
  let j ← { j with shutdown := true }.moves join
  if j.joined then some j else none

theorem fini_spec {j j' : Job ρ} {sleep join : List Move}
    (hdown : j.shutdown = false) (h : j.fini sleep join = some j') :
    wakes sleep ≤ j.requests.length ∧
      (j'.replies ++ j.requests.drop (wakes sleep)).Perm j.all := by
  simp only [fini, bind, Option.bind_eq_some_iff, Option.ite_none_right_eq_some] at h
  obtain ⟨j₁, hsleep, j₂, hjoin, hgone, hret⟩ := h
  cases hret
  obtain ⟨hle, hdrop⟩ := requests_moves hdown hsleep
  have hrest : j'.requests = j.requests.drop (wakes sleep) := by
    rw [requests_down rfl hjoin, ← hdrop]
  have hidle : j'.threads.flatMap Thread.running = [] :=
    List.flatMap_eq_nil_iff.mpr fun t ht => by
      have hg := List.all_eq_true.mp hgone t ht
      cases t <;> simp_all [Thread.running]
  have hall : j'.all = j'.replies ++ j.requests.drop (wakes sleep) := by
    rw [all, hidle, hrest, List.append_nil]
  refine ⟨hle, ?_⟩
  rw [← hall]
  have hslept : j₁.all.Perm j.all := all_moves hsleep
  exact (all_moves hjoin).trans hslept

end Job

end ViabtcExchange
