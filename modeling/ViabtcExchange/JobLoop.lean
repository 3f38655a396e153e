import ViabtcExchange.Job
import ViabtcExchange.Lib.Mailbox
import Mathlib.Logic.Relation

/-!
# Jobs and the loop (`nw_job.c`)

`Job` is what the threads do with the requests. Here is what is around it: a thread that finds
nothing to do sleeps on `notify`, and `nw_job_add` wakes one; what `on_job` has returned from is put
into the list of replies, and the loop of the process is woken by a pipe and calls `on_finish` and
`on_cleanup`. All of this is before `nw_job_release`.

**Theorem (`requests_finished`).** Whatever the threads and the loop do in whatever order, each
request is finished at most once, and with one thread in the order of the requests; and none is lost
or waits for ever, for with nothing else added all of them are finished.
-/

namespace ViabtcExchange

/-- `asleep` are the threads in `pthread_cond_wait`, and `added` is all that was added. -/
structure JobLoop (ρ : Type) where
  job : Job ρ
  asleep : ℕ → Bool
  replies : Mailbox ρ
  added : List ρ

namespace JobLoop

variable {ρ : Type} (capacity : ℕ)

/-- `nw_job_create`. -/
def create (threadCount : ℕ) : JobLoop ρ := ⟨.create threadCount, fun _ => false, .empty, []⟩

/-- `pthread_cond_signal`: at least one of those that sleep is woken. -/
def Signal (asleep asleep' : ℕ → Bool) : Prop :=
  (∀ i, asleep' i = true → asleep i = true) ∧
    ((∃ i, asleep i = true) → ∃ i, asleep i = true ∧ asleep' i = false)

inductive Step : JobLoop ρ → JobLoop ρ → Prop
  | add {l : JobLoop ρ} {request : ρ} {asleep : ℕ → Bool} : Signal l.asleep asleep →
      Step l { l with job := l.job.add request, asleep := asleep, added := l.added ++ [request] }
  | wait {l : JobLoop ρ} {i : ℕ} : l.job.threads[i]? = some .ready → l.asleep i = false →
      l.job.requests = [] → Step l { l with asleep := Function.update l.asleep i true }
  /-- `pthread_cond_wait` may return at any time. -/
  | spurious {l : JobLoop ρ} {i : ℕ} : Step l { l with asleep := Function.update l.asleep i false }
  | wake {l : JobLoop ρ} {i : ℕ} {job : Job ρ} : l.asleep i = false →
      l.job.move (.wake i) = some job → Step l { l with job := job }
  | reply {l : JobLoop ρ} {i : ℕ} {request : ρ} {job : Job ρ} :
      l.job.threads[i]? = some (.busy request) → l.job.move (.reply i) = some job →
        Step l { l with job := job, replies := l.replies.post capacity request }
  | turn {l : JobLoop ρ} {replies : Mailbox ρ} : l.replies.turn = some replies →
      Step l { l with replies := replies }

/-- What is kept, with `n` threads. -/
structure Kept (n : ℕ) (l : JobLoop ρ) : Prop where
  threads : l.job.threads.length = n
  up : l.job.shutdown = false
  running : Thread.gone ∉ l.job.threads
  replies : l.job.replies = l.replies.all
  all : l.job.all.Perm l.added
  all_one : n = 1 → l.job.all = l.added
  sleepers : ∀ i, l.asleep i = true → i < n
  /-- While there are requests, not all threads sleep. -/
  notified : l.job.requests ≠ [] → ∃ i < n, l.asleep i = false
  awake : l.replies.Awake

variable {capacity n : ℕ} {l l' : JobLoop ρ}

theorem kept_create : Kept n (create n : JobLoop ρ) where
  threads := List.length_replicate
  up := rfl
  running h := by cases List.eq_of_mem_replicate h
  replies := rfl
  all := by
    show (Job.create n).all.Perm []
    rw [Job.all_create]
  all_one _ := Job.all_create n
  sleepers _ h := Bool.noConfusion h
  notified h := absurd rfl h
  awake := Mailbox.awake_empty

/-! ### One step -/

theorem Kept.add (hn : 0 < n) (h : Kept n l) {asleep : ℕ → Bool} (hsignal : Signal l.asleep asleep)
    (request : ρ) :
    Kept n { l with
      job := l.job.add request, asleep := asleep, added := l.added ++ [request] } where
  threads := h.threads
  up := h.up
  running := h.running
  replies := h.replies
  all := by
    rw [Job.all_add]
    exact h.all.append_right _
  all_one hone := by
    rw [Job.all_add, h.all_one hone]
  sleepers i hi := h.sleepers i (hsignal.1 i hi)
  notified _ := by
    by_cases hany : ∃ i, l.asleep i = true
    · obtain ⟨i, hi, hwoken⟩ := hsignal.2 hany
      exact ⟨i, h.sleepers i hi, hwoken⟩
    · refine ⟨0, hn, Bool.eq_false_iff.mpr fun hzero => hany ⟨0, hsignal.1 0 hzero⟩⟩
  awake := h.awake

theorem Kept.wait (h : Kept n l) {i : ℕ} (hready : l.job.threads[i]? = some .ready)
    (hrequests : l.job.requests = []) :
    Kept n { l with asleep := Function.update l.asleep i true } where
  threads := h.threads
  up := h.up
  running := h.running
  replies := h.replies
  all := h.all
  all_one := h.all_one
  sleepers j hj := by
    by_cases hji : j = i
    · subst hji
      exact h.threads ▸ (List.getElem?_eq_some_iff.mp hready).1
    · exact h.sleepers j ((Function.update_of_ne hji _ _).symm.trans hj)
  notified hne := absurd hrequests hne
  awake := h.awake

theorem Kept.spurious (h : Kept n l) (i : ℕ) :
    Kept n { l with asleep := Function.update l.asleep i false } where
  threads := h.threads
  up := h.up
  running := h.running
  replies := h.replies
  all := h.all
  all_one := h.all_one
  sleepers j hj := by
    by_cases hji : j = i
    · subst hji
      cases (Function.update_self j false l.asleep).symm.trans hj
    · exact h.sleepers j ((Function.update_of_ne hji _ _).symm.trans hj)
  notified hne := by
    obtain ⟨j, hj, hawake⟩ := h.notified hne
    refine ⟨j, hj, ?_⟩
    by_cases hji : j = i
    · subst hji
      exact Function.update_self j false l.asleep
    · exact (Function.update_of_ne hji _ _).trans hawake
  awake := h.awake

theorem Kept.move (h : Kept n l) {m : Job.Move} {job : Job ρ} (hmove : l.job.move m = some job) :
    job.threads.length = n ∧ job.shutdown = false ∧ job.all.Perm l.added ∧
      (n = 1 → job.all = l.added) := by
  obtain ⟨hlength, hdown⟩ := Job.threads_move hmove
  refine ⟨hlength.trans h.threads, hdown.trans h.up, (Job.all_move hmove).trans h.all, fun hone => ?_⟩
  exact (Job.all_move_one (h.threads.trans hone) hmove).trans (h.all_one hone)

theorem Kept.wake (h : Kept n l) {i : ℕ} {job : Job ρ} (hawake : l.asleep i = false)
    (hmove : l.job.move (.wake i) = some job) : Kept n { l with job := job } := by
  obtain ⟨hlength, hup, hall, hone⟩ := h.move hmove
  obtain ⟨hready, ⟨hdown, -⟩ | ⟨request, requests, -, hrequests, rfl⟩⟩ := Job.move_wake hmove
  · rw [h.up] at hdown
    cases hdown
  · refine ⟨hlength, hup, fun hgone => ?_, h.replies, hall, hone, h.sleepers, fun _ => ?_, h.awake⟩
    · rcases List.mem_or_eq_of_mem_set hgone with hgone | hgone
      · exact h.running hgone
      · cases hgone
    · exact ⟨i, h.threads ▸ (List.getElem?_eq_some_iff.mp hready).1, hawake⟩

theorem Kept.reply (hcapacity : 0 < capacity) (h : Kept n l) {i : ℕ} {request : ρ} {job : Job ρ}
    (hbusy : l.job.threads[i]? = some (.busy request)) (hmove : l.job.move (.reply i) = some job) :
    Kept n { l with job := job, replies := l.replies.post capacity request } := by
  obtain ⟨hlength, hup, hall, hone⟩ := h.move hmove
  obtain ⟨request', hbusy', rfl⟩ := Job.move_reply hmove
  obtain rfl : request = request' := Thread.busy.inj (Option.some.inj (hbusy.symm.trans hbusy'))
  refine ⟨hlength, hup, fun hgone => ?_, ?_, hall, hone, h.sleepers, h.notified,
    Mailbox.awake_post hcapacity _⟩
  · rcases List.mem_or_eq_of_mem_set hgone with hgone | hgone
    · exact h.running hgone
    · cases hgone
  · rw [Mailbox.all_post, ← h.replies]

theorem Kept.turn (h : Kept n l) {replies : Mailbox ρ} (hturn : l.replies.turn = some replies) :
    Kept n { l with replies := replies } :=
  { h with
    replies := h.replies.trans (Mailbox.all_turn hturn).symm
    awake := Mailbox.awake_turn hturn }

theorem Kept.step (hcapacity : 0 < capacity) (hn : 0 < n) (h : Kept n l)
    (hstep : Step capacity l l') : Kept n l' := by
  cases hstep with
  | add hsignal => exact h.add hn hsignal _
  | wait hready _ hrequests => exact h.wait hready hrequests
  | spurious => exact h.spurious _
  | wake hawake hmove => exact h.wake hawake hmove
  | reply hbusy hmove => exact h.reply hcapacity hbusy hmove
  | turn hturn => exact h.turn hturn

theorem Kept.run (hcapacity : 0 < capacity) (hn : 0 < n) (h : Kept n l)
    (hrun : Relation.ReflTransGen (Step capacity) l l') : Kept n l' := by
  induction hrun with
  | refl => exact h
  | tail _ hstep ih => exact ih.step hcapacity hn hstep

/-! ## Everything is finished -/

/-- What is left to do, if nothing else is added. -/
def pending (l : JobLoop ρ) : ℕ :=
  7 * l.job.requests.length + 6 * (l.job.threads.flatMap Thread.running).length + l.replies.effort

/-- A thread that runs a request. -/
theorem exists_busy {threads : List (Thread ρ)} (h : threads.flatMap Thread.running ≠ []) :
    ∃ (i : ℕ) (request : ρ), threads[i]? = some (.busy request) := by
  obtain ⟨request, hmem⟩ := List.exists_mem_of_ne_nil _ h
  obtain ⟨t, ht, hrunning⟩ := List.mem_flatMap.mp hmem
  obtain ⟨i, hi, hget⟩ := List.getElem_of_mem ht
  cases t with
  | busy request' => exact ⟨i, request', (List.getElem?_eq_getElem hi).trans (congrArg some hget)⟩
  | _ => cases hrunning

theorem Kept.progress (h : Kept n l) (hmore : ¬ l.replies.taken.Perm l.added) :
    ∃ l', Step capacity l l' ∧ l'.added = l.added ∧ l'.pending < l.pending := by
  cases hturn : l.replies.turn with
  | some replies =>
    refine ⟨_, .turn hturn, rfl, ?_⟩
    have := Mailbox.effort_turn hturn
    unfold pending
    dsimp only
    omega
  | none =>
    have hqueue := h.awake.queue_eq_nil hturn
    by_cases hidle : l.job.threads.flatMap Thread.running = []
    · cases hrequests : l.job.requests with
      | nil =>
        refine absurd ?_ hmore
        have hall := h.all
        unfold Job.all at hall
        rw [hidle, hrequests, h.replies, List.append_nil, List.append_nil] at hall
        unfold Mailbox.all at hall
        rw [hqueue, List.append_nil] at hall
        exact hall
      | cons request requests =>
        obtain ⟨i, hi, hawake⟩ := h.notified (by rw [hrequests]; exact List.cons_ne_nil _ _)
        have hlt : i < l.job.threads.length := h.threads.symm ▸ hi
        have hready : l.job.threads[i]? = some .ready := by
          rw [List.getElem?_eq_getElem hlt]
          cases ht : l.job.threads[i] with
          | ready => rfl
          | gone => exact absurd (ht ▸ List.getElem_mem hlt) h.running
          | busy request' =>
            refine absurd (List.mem_flatMap.mpr ⟨_, List.getElem_mem hlt, ?_⟩)
              (hidle ▸ List.not_mem_nil : request' ∉ l.job.threads.flatMap Thread.running)
            rw [ht]
            exact List.mem_singleton_self _
        have hmove : l.job.move (.wake i) =
            some { l.job with requests := requests, threads := l.job.threads.set i (.busy request) } := by
          unfold Job.move
          simp only [hready, h.up, hrequests, Bool.false_eq_true, if_false]
        refine ⟨_, .wake hawake hmove, rfl, ?_⟩
        obtain ⟨front, rear, hold, hset⟩ := Job.running_set hready
        unfold pending
        dsimp only
        rw [hold, hset, hrequests]
        simp only [Thread.running, List.length_append, List.length_cons, List.length_nil]
        omega
    · obtain ⟨i, request, hbusy⟩ := exists_busy hidle
      have hmove : l.job.move (.reply i) = some { l.job with
          threads := l.job.threads.set i .ready, replies := l.job.replies ++ [request] } := by
        unfold Job.move
        simp only [hbusy]
      refine ⟨_, .reply hbusy hmove, rfl, ?_⟩
      obtain ⟨front, rear, hold, hset⟩ := Job.running_set hbusy
      have : (l.replies.post capacity request).effort ≤ l.replies.effort + 5 :=
        Mailbox.effort_post h.awake _
      unfold pending
      dsimp only
      rw [hold, hset]
      simp only [Thread.running, List.length_append, List.length_cons, List.length_nil]
      omega

theorem Kept.catchUp (hcapacity : 0 < capacity) (hn : 0 < n) (h : Kept n l) :
    ∃ l', Relation.ReflTransGen (Step capacity) l l' ∧ l'.added = l.added ∧
      l'.replies.taken.Perm l'.added := by
  obtain ⟨l', hrun, ⟨hadded, -⟩, htaken⟩ := exists_done_of_progress (Step capacity)
    (fun l' => l'.added = l.added ∧ Kept n l') (fun l' => l'.replies.taken.Perm l'.added) pending
    (fun l₁ hkept hmore => by
      obtain ⟨l', hstep, hadded, hless⟩ := hkept.2.progress hmore
      exact ⟨l', hstep, ⟨hadded.trans hkept.1, hkept.2.step hcapacity hn hstep⟩, hless⟩) ⟨rfl, h⟩
  exact ⟨l', hrun, hadded, htaken⟩

/-- **Each request is finished once, and none is lost.** At any point of any run, `on_finish` has been
called for each of the requests once at most; with one thread, for the first of them, in their order;
and from there on, with nothing else added, it can come to be called for all of them. -/
theorem requests_finished (hcapacity : 0 < capacity) (hn : 0 < n)
    (hrun : Relation.ReflTransGen (Step capacity) (create n) l) :
    l.replies.taken.Subperm l.added ∧ (n = 1 → l.replies.taken <+: l.added) ∧
      ∃ l', Relation.ReflTransGen (Step capacity) l l' ∧ l'.added = l.added ∧
        l'.replies.taken.Perm l'.added := by
  have hkept := (kept_create (ρ := ρ)).run hcapacity hn hrun
  have htaken : l.replies.taken <+: l.job.all := by
    unfold Job.all
    rw [hkept.replies]
    unfold Mailbox.all
    rw [List.append_assoc, List.append_assoc]
    exact List.prefix_append _ _
  refine ⟨htaken.sublist.subperm.trans hkept.all.subperm, fun hone => ?_, hkept.catchUp hcapacity hn⟩
  rw [← hkept.all_one hone]
  exact htaken

/-- Two requests for two threads. -/
theorem requests_finished_two :
    ∃ l : JobLoop ℕ, Relation.ReflTransGen (Step 65536) (create 2) l ∧
      l.replies.taken.Perm [7, 8] := by
  have hsignal : Signal (fun _ => false) (fun _ => false) :=
    ⟨fun _ h => h, fun ⟨_, h⟩ => Bool.noConfusion h⟩
  have hrun : Relation.ReflTransGen (Step 65536) (create 2 : JobLoop ℕ) _ :=
    .tail (.single (@Step.add ℕ _ _ 7 _ hsignal)) (@Step.add ℕ _ _ 8 _ hsignal)
  obtain ⟨-, -, l, hrun', hadded, htaken⟩ := requests_finished (by decide) (by decide) hrun
  refine ⟨l, hrun.trans hrun', ?_⟩
  rw [hadded] at htaken
  exact htaken

end JobLoop

end ViabtcExchange
