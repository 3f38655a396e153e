import Mathlib.Tactic

/-!
# Programs that write to a store elsewhere

A program sends commands over a connection. Each is carried out or not, and an answer comes back
or not, one independently of the other; before any command the program may die. `Wire σ α` is such
a program, over the store `σ` and with the result `α`: it is given its answers, and dies where
they end.

A triple `Triple A P m Q C` says that from a store with `P`, if `A` holds of the answers, `m` ends
with `Q` of its result and the store, or dies and leaves a store with `C`. Of a program made of
parts it is proved part by part (`triple_pure`, `triple_bind`, `triple_send`).
-/

namespace ViabtcExchange

/-- What becomes of a command. -/
structure Answer where
  applied : Bool
  replied : Bool
deriving DecidableEq, Repr

/-- A command that succeeds. -/
def Answer.fine (a : Answer) : Prop := a.applied = true ∧ a.replied = true

/-- `none` when the program dies. -/
def Wire (σ α : Type) : Type := σ → List Answer → σ × Option (α × List Answer)

namespace Wire

variable {σ α β : Type}

def pure (a : α) : Wire σ α := fun s answers => (s, some (a, answers))

def bind (m : Wire σ α) (f : α → Wire σ β) : Wire σ β := fun s answers =>
  match m s answers with
  | (s, some (a, answers)) => f a s answers
  | (s, none) => (s, none)

/-- Send a command, and see if it is answered. `exec` is what it does, applied or not. -/
def send (exec : Bool → σ → σ) : Wire σ Bool := fun s answers =>
  match answers with
  | [] => (s, none)
  | a :: answers => (exec a.applied s, some (a.replied, answers))

/-- One after the other. -/
def forEach (f : β → Wire σ Unit) : List β → Wire σ Unit
  | [] => pure ()
  | b :: bs => bind (f b) fun _ => forEach f bs

/-! ## Triples -/

def Triple (A : Answer → Prop) (P : σ → Prop) (m : Wire σ α) (Q : α → σ → Prop) (C : σ → Prop) :
    Prop :=
  ∀ s answers, P s → (∀ a ∈ answers, A a) →
    match m s answers with
    | (s', some (a, answers')) => Q a s' ∧ ∀ a ∈ answers', A a
    | (s', none) => C s'

variable {A : Answer → Prop} {P P' : σ → Prop} {Q : α → σ → Prop} {C : σ → Prop}

theorem triple_pure {a : α} (h : ∀ s, P s → Q a s) : Triple A P (pure a) Q C :=
  fun s _ hs hA => ⟨h s hs, hA⟩

theorem triple_bind {m : Wire σ α} {f : α → Wire σ β} {R : β → σ → Prop}
    (hm : Triple A P m Q C) (hf : ∀ a, Triple A (Q a) (f a) R C) : Triple A P (bind m f) R C := by
  intro s answers hs hA
  have hfirst := hm s answers hs hA
  unfold bind
  rcases hres : m s answers with ⟨s', _ | ⟨a, answers'⟩⟩
  · rw [hres] at hfirst
    exact hfirst
  · rw [hres] at hfirst
    exact hf a s' answers' hfirst.1 hfirst.2

theorem triple_send {exec : Bool → σ → σ} {Q : Bool → σ → Prop} (hdie : ∀ s, P s → C s)
    (h : ∀ s a, P s → A a → Q a.replied (exec a.applied s)) : Triple A P (send exec) Q C := by
  intro s answers hs hA
  cases answers with
  | nil => exact hdie s hs
  | cons a answers =>
    exact ⟨h s a hs (hA a (List.mem_cons_self ..)),
      fun a' ha' => hA a' (List.mem_cons_of_mem _ ha')⟩

theorem Triple.weaken {m : Wire σ α} (h : Triple A P m Q C) {Q' : α → σ → Prop}
    (hP : ∀ s, P' s → P s) (hQ : ∀ a s, Q a s → Q' a s) : Triple A P' m Q' C := by
  intro s answers hs hA
  have hres := h s answers (hP s hs) hA
  rcases hm : m s answers with ⟨s', _ | ⟨a, answers'⟩⟩
  · rw [hm] at hres
    exact hres
  · rw [hm] at hres
    exact ⟨hQ a s' hres.1, hres.2⟩

/-- A loop, with an invariant that knows what is still to be done. -/
theorem triple_forEach {f : β → Wire σ Unit} {I : List β → σ → Prop}
    (hf : ∀ b bs, Triple A (I (b :: bs)) (f b) (fun _ => I bs) C) :
    ∀ bs, Triple A (I bs) (forEach f bs) (fun _ => I []) C
  | [] => triple_pure fun _ h => h
  | b :: bs => triple_bind (hf b bs) fun _ => triple_forEach hf bs

end Wire

end ViabtcExchange
