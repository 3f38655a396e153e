import ViabtcExchange.Lib.Dict

/-!
# Tables of subscribers

A table has topics under keys, and each topic has its subscribers and a value. A subscriber may be
in any number of topics and leaves all of them at once (`Topics.unsubscribe`). Topics that nobody
has subscribed to are swept out from time to time.
-/

namespace ViabtcExchange

/-- Who has subscribed to a topic, and what is kept for them. -/
structure Topic (S V : Type) where
  sessions : Finset S
  val : V

abbrev Topics (S K V : Type) : Type := Dict K (Topic S V)

namespace Topics

variable {S K V : Type} [DecidableEq S] [DecidableEq K] (t : Topics S K V) (s s' : S) (k k' : K)

/-- A new topic begins with `fresh`. -/
def subscribe (fresh : V) : Topics S K V :=
  let obj := (t.find k).getD ⟨∅, fresh⟩
  Finmap.insert k { obj with sessions := insert s obj.sessions } t

def unsubscribe : Topics S K V :=
  Dict.mapValues (fun obj => { obj with sessions := obj.sessions.erase s }) t

/-- Drop the topics without subscribers. -/
def sweep : Topics S K V := Dict.filter (fun _ obj => !decide (obj.sessions = ∅)) t

/-- `s` is a subscriber of the topic under `k`. -/
def Has : Prop := ∃ obj, t.find k = some obj ∧ s ∈ obj.sessions

instance : Decidable (t.Has s k) :=
  decidable_of_iff ((t.find k).any (fun obj => decide (s ∈ obj.sessions)) = true) (by
    unfold Has
    rw [Option.any_eq_true]
    simp)

theorem find_subscribe (fresh : V) : (t.subscribe s k fresh).find k' =
    if k' = k then
      some { (t.find k).getD ⟨∅, fresh⟩ with
        sessions := insert s ((t.find k).getD ⟨∅, fresh⟩).sessions }
    else t.find k' :=
  Dict.find_insert ..

theorem find_unsubscribe : (t.unsubscribe s).find k =
    (t.find k).map fun obj => { obj with sessions := obj.sessions.erase s } :=
  Dict.find_mapValues ..

theorem find_sweep {obj : Topic S V} :
    t.sweep.find k = some obj ↔ t.find k = some obj ∧ obj.sessions ≠ ∅ := by
  unfold sweep
  rw [Dict.find_filter_eq_some]
  simp

/-- To subscribe adds one subscriber to one topic. -/
theorem has_subscribe (fresh : V) :
    (t.subscribe s k fresh).Has s' k' ↔ (s' = s ∧ k' = k) ∨ t.Has s' k' := by
  unfold Has
  rw [find_subscribe]
  by_cases hk : k' = k
  · subst hk
    rw [if_pos rfl]
    cases hfind : t.find k' <;> simp
  · rw [if_neg hk]
    simp [hk]

/-- To unsubscribe takes a subscriber out of all topics, and no other out of any. -/
theorem has_unsubscribe : (t.unsubscribe s).Has s' k ↔ s' ≠ s ∧ t.Has s' k := by
  unfold Has
  rw [find_unsubscribe]
  cases hfind : t.find k <;> simp

theorem has_sweep : t.sweep.Has s k ↔ t.Has s k := by
  unfold Has
  constructor
  · rintro ⟨obj, hfind, hs⟩
    exact ⟨obj, ((t.find_sweep k).mp hfind).1, hs⟩
  · rintro ⟨obj, hfind, hs⟩
    exact ⟨obj, (t.find_sweep k).mpr ⟨hfind, Finset.ne_empty_of_mem hs⟩, hs⟩

omit [DecidableEq S] in
theorem has_erase : Has (Finmap.erase k' t) s k ↔ k ≠ k' ∧ t.Has s k := by
  unfold Has
  rw [Dict.find_erase]
  by_cases hk : k = k' <;> simp [hk]

omit [DecidableEq S] in
/-- Nobody has subscribed to anything yet. -/
theorem not_has_empty : ¬Has (∅ : Topics S K V) s k := by
  rintro ⟨obj, hfind, -⟩
  rw [Dict.find_empty] at hfind
  cases hfind

end Topics

end ViabtcExchange
