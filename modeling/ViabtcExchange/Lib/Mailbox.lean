import Mathlib.Data.List.Basic
import Mathlib.Logic.Relation
import Mathlib.Tactic

/-!
# A queue with a wake-up pipe

Others put something into a queue and write a byte into a pipe, all of it under a lock. The byte is
lost if the pipe is full. Whoever takes out of the queue sleeps until the pipe can be read, reads it
until it is empty, and then takes out of the queue until this is empty. A `turn` is one thing it does
between two locks, so that the others come in anywhere.

Main results: `awake_post` and `awake_turn` (nothing is left in the queue while it sleeps), and
`effort_turn` (it does not go on for ever).
-/

namespace ViabtcExchange

/-- What is not done yet can always go on, with less left to do: it can be done. -/
theorem exists_done_of_progress {σ : Type*} (step : σ → σ → Prop) (kept goal : σ → Prop) (left : σ → ℕ)
    (hprogress : ∀ s, kept s → ¬ goal s → ∃ s', step s s' ∧ kept s' ∧ left s' < left s) {s : σ}
    (hs : kept s) : ∃ s', Relation.ReflTransGen step s s' ∧ kept s' ∧ goal s' := by
  induction hleft : left s using Nat.strong_induction_on generalizing s with
  | _ n ih =>
    by_cases hgoal : goal s
    · exact ⟨s, .refl, hs, hgoal⟩
    · obtain ⟨s₁, hstep, hs₁, hless⟩ := hprogress s hs hgoal
      obtain ⟨s', hrun, hdone⟩ := ih _ (hleft ▸ hless) hs₁ rfl
      exact ⟨s', .head hstep hrun, hdone⟩

/-- Asleep, reading the pipe, or taking out of the queue. -/
inductive Mailbox.Phase
  | asleep
  | clearing
  | taking
deriving DecidableEq, Repr

/-- `taken` is all that has been taken out of the queue. -/
structure Mailbox (α : Type) where
  queue : List α
  bytes : ℕ
  phase : Mailbox.Phase
  taken : List α

namespace Mailbox

variable {α : Type}

def empty : Mailbox α := ⟨[], 0, .asleep, []⟩

def post (capacity : ℕ) (b : Mailbox α) (a : α) : Mailbox α :=
  { b with queue := b.queue ++ [a], bytes := min (b.bytes + 1) capacity }

def turn (b : Mailbox α) : Option (Mailbox α) :=
  match b.phase with
  | .asleep => if b.bytes = 0 then none else some { b with phase := .clearing }
  | .clearing =>
    if b.bytes = 0 then some { b with phase := .taking } else some { b with bytes := b.bytes - 1 }
  | .taking =>
    match b.queue with
    | [] => some { b with phase := .asleep }
    | a :: queue => some { b with queue := queue, taken := b.taken ++ [a] }

/-- Whatever was put into the queue, in this order. -/
def all (b : Mailbox α) : List α := b.taken ++ b.queue

/-- Nothing is in the queue while it sleeps, unless it is about to wake. -/
def Awake (b : Mailbox α) : Prop := b.queue ≠ [] → b.bytes ≠ 0 ∨ b.phase ≠ .asleep

/-- The turns until it sleeps, if nothing else comes. -/
def effort (b : Mailbox α) : ℕ :=
  match b.phase with
  | .asleep => if b.bytes = 0 then 0 else b.bytes + b.queue.length + 3
  | .clearing => b.bytes + b.queue.length + 2
  | .taking => b.queue.length + 1 + if b.bytes = 0 then 0 else b.bytes + 3

variable {capacity : ℕ} {b b' : Mailbox α}

@[simp] theorem all_empty : (empty : Mailbox α).all = [] := rfl

@[simp] theorem all_post (a : α) : (b.post capacity a).all = b.all ++ [a] :=
  (List.append_assoc _ _ _).symm

@[simp] theorem taken_post (a : α) : (b.post capacity a).taken = b.taken := rfl

@[simp] theorem queue_post (a : α) : (b.post capacity a).queue = b.queue ++ [a] := rfl

theorem awake_empty : (empty : Mailbox α).Awake := fun h => absurd rfl h

theorem awake_post (hcapacity : 0 < capacity) (a : α) : (b.post capacity a).Awake := by
  refine fun _ => Or.inl ?_
  show min (b.bytes + 1) capacity ≠ 0
  omega

/-! ### What a turn does -/

theorem turn_cases (h : b.turn = some b') :
    (b.phase = .asleep ∧ b.bytes ≠ 0 ∧ b' = { b with phase := .clearing }) ∨
      (b.phase = .clearing ∧ b.bytes = 0 ∧ b' = { b with phase := .taking }) ∨
      (b.phase = .clearing ∧ b.bytes ≠ 0 ∧ b' = { b with bytes := b.bytes - 1 }) ∨
      (b.phase = .taking ∧ b.queue = [] ∧ b' = { b with phase := .asleep }) ∨
      ∃ a queue, b.phase = .taking ∧ b.queue = a :: queue ∧
        b' = { b with queue := queue, taken := b.taken ++ [a] } := by
  unfold turn at h
  cases hphase : b.phase with
  | asleep =>
    rw [hphase] at h
    dsimp only at h
    split_ifs at h with hbytes
    exact Or.inl ⟨rfl, hbytes, (Option.some.inj h).symm⟩
  | clearing =>
    rw [hphase] at h
    dsimp only at h
    split_ifs at h with hbytes
    · exact Or.inr (Or.inl ⟨rfl, hbytes, (Option.some.inj h).symm⟩)
    · exact Or.inr (Or.inr (Or.inl ⟨rfl, hbytes, (Option.some.inj h).symm⟩))
  | taking =>
    rw [hphase] at h
    dsimp only at h
    cases hqueue : b.queue with
    | nil =>
      rw [hqueue] at h
      exact Or.inr (Or.inr (Or.inr (Or.inl ⟨rfl, rfl, (Option.some.inj h).symm⟩)))
    | cons a queue =>
      rw [hqueue] at h
      exact Or.inr (Or.inr (Or.inr (Or.inr ⟨a, queue, rfl, rfl, (Option.some.inj h).symm⟩)))

theorem all_turn (h : b.turn = some b') : b'.all = b.all := by
  obtain ⟨-, -, rfl⟩ | ⟨-, -, rfl⟩ | ⟨-, -, rfl⟩ | ⟨-, -, rfl⟩ | ⟨a, queue, -, hqueue, rfl⟩ :=
    turn_cases h
  · rfl
  · rfl
  · rfl
  · rfl
  · unfold all
    rw [hqueue]
    exact List.append_assoc _ _ _

theorem taken_turn (h : b.turn = some b') : b.taken <+: b'.taken := by
  obtain ⟨-, -, rfl⟩ | ⟨-, -, rfl⟩ | ⟨-, -, rfl⟩ | ⟨-, -, rfl⟩ | ⟨a, queue, -, -, rfl⟩ := turn_cases h
  · exact List.prefix_refl _
  · exact List.prefix_refl _
  · exact List.prefix_refl _
  · exact List.prefix_refl _
  · exact List.prefix_append _ _

theorem length_turn (h : b.turn = some b') : b'.queue.length ≤ b.queue.length := by
  obtain ⟨-, -, rfl⟩ | ⟨-, -, rfl⟩ | ⟨-, -, rfl⟩ | ⟨-, -, rfl⟩ | ⟨a, queue, -, hqueue, rfl⟩ :=
    turn_cases h
  · exact le_rfl
  · exact le_rfl
  · exact le_rfl
  · exact le_rfl
  · rw [hqueue]
    exact Nat.le_succ _

theorem awake_turn (hturn : b.turn = some b') : b'.Awake := by
  obtain ⟨-, -, rfl⟩ | ⟨-, -, rfl⟩ | ⟨hphase, -, rfl⟩ | ⟨-, hqueue, rfl⟩ | ⟨a, queue, hphase, -, rfl⟩ :=
    turn_cases hturn
  · exact fun _ => Or.inr Phase.noConfusion
  · exact fun _ => Or.inr Phase.noConfusion
  · exact fun _ => Or.inr (by rw [hphase]; exact Phase.noConfusion)
  · exact fun hne => absurd hqueue hne
  · exact fun _ => Or.inr (by rw [hphase]; exact Phase.noConfusion)

/-- It sleeps, and then nothing is in the queue. -/
theorem Awake.queue_eq_nil (h : b.Awake) (hturn : b.turn = none) : b.queue = [] := by
  by_contra hqueue
  unfold Mailbox.turn at hturn
  cases hphase : b.phase with
  | asleep =>
    rw [hphase] at hturn
    dsimp only at hturn
    split_ifs at hturn with hbytes
    exact (h hqueue).elim (· hbytes) (· hphase)
  | clearing =>
    rw [hphase] at hturn
    dsimp only at hturn
    split_ifs at hturn
  | taking =>
    rw [hphase] at hturn
    dsimp only at hturn
    split at hturn <;> cases hturn

/-! ### It comes to an end -/

theorem effort_turn (h : b.turn = some b') : b'.effort < b.effort := by
  obtain ⟨hphase, hbytes, rfl⟩ | ⟨hphase, hbytes, rfl⟩ | ⟨hphase, hbytes, rfl⟩ | ⟨hphase, hqueue, rfl⟩ |
    ⟨a, queue, hphase, hqueue, rfl⟩ := turn_cases h
  · simp only [effort, hphase, if_neg hbytes]
    omega
  · simp only [effort, hphase, hbytes, if_true]
    omega
  · simp only [effort, hphase]
    omega
  · simp only [effort, hphase, hqueue, List.length_nil]
    split_ifs <;> omega
  · simp only [effort, hphase, hqueue, List.length_cons]
    omega

/-- Whatever is put into the queue costs at most five turns. -/
theorem effort_post (h : b.Awake) (a : α) : (b.post capacity a).effort ≤ b.effort + 5 := by
  have hbytes : min (b.bytes + 1) capacity ≤ b.bytes + 1 := min_le_left _ _
  have hlength : (b.queue ++ [a]).length = b.queue.length + 1 := List.length_append
  unfold effort post
  dsimp only
  rw [hlength]
  cases hphase : b.phase with
  | asleep =>
    dsimp only
    split_ifs with hfull hempty hempty
    · exact Nat.zero_le _
    · exact Nat.zero_le _
    · have hqueue : b.queue = [] := by
        by_contra hqueue
        exact (h hqueue).elim (· hempty) (· hphase)
      rw [hqueue, List.length_nil]
      omega
    · omega
  | clearing =>
    dsimp only
    omega
  | taking =>
    dsimp only
    split_ifs <;> omega

end Mailbox

end ViabtcExchange
