import ViabtcExchange.Lib.HashTable
import ViabtcExchange.Lib.Subscribers
import ViabtcExchange.Sessions

/-!
# The session dictionaries of accessws (`aw_depth.c` and its siblings, `ut_dict.c`)

Each topic has its subscribers in a dictionary with the address of a session as the key. The address
is what keys are compared by, but `dict_ses_hash_func` hashes the bytes at that address, and these
are the first fields of its libev watcher: `active` and `pending`. Whenever an event of the session
is queued the hash is another one. A session is then looked for in a bucket it is not in, so that it
is added twice, or stays when it unsubscribes or is closed.

**Theorem (`sessions_stable`).** As long as a session that subscribes or unsubscribes is in a bucket
its bytes lead to, the dictionaries are the tables of subscribers (`Topics`) that the rest of
accessws is modelled with.
-/

namespace ViabtcExchange

/-- `dict_generic_hash_function`. -/
def dictGenericHashFunction (data : List UInt8) : UInt32 :=
  data.foldl (fun hval b =>
    let hval := hval ^^^ b.toUInt32
    hval + ((hval <<< 1) + (hval <<< 4) + (hval <<< 7) + (hval <<< 8) + (hval <<< 24))) 0x811c9dc5

/-- `dict_ses_hash_func`, of the memory at a session. -/
def dictSesHashFunc (memory : List UInt8) : UInt32 := dictGenericHashFunction (memory.take 8)

/-- The dictionary of topics of a module, with the sessions of each, and the memory of the sessions.
Price, state, today and deals have their topics by market, kline by market and interval, depth by
`struct depth_key`. The hash of each session when it was put into its bucket is recorded for the
theorems only. -/
structure SesDicts (K : Type) where
  dicts : Dict K (HashTable Ses)
  memory : Ses → List UInt8
  filed : K → Ses → ℕ

/-- What happens to them. Activity of the event loop writes to the memory of a session, and a timer
drops the topics that have no sessions. -/
inductive SesAct (K : Type)
  | subscribe (ses : Ses) (key : K)
  | unsubscribe (ses : Ses)
  | activity (ses : Ses) (memory : List UInt8)
  | sweep (key : K)

namespace SesDicts

variable {K : Type} [DecidableEq K]

def start (memory : Ses → List UInt8) : SesDicts K := ⟨∅, memory, fun _ _ => 0⟩

/-- The hash that a dictionary is given now. -/
def hash (w : SesDicts K) (ses : Ses) : ℕ := (dictSesHashFunc (w.memory ses)).toNat

/-- `price_subscribe` and its siblings. -/
def subscribe (w : SesDicts K) (ses : Ses) (key : K) : SesDicts K :=
  let obj := (w.dicts.find key).getD (.create 1024)
  { w with
    dicts := w.dicts.insert key (obj.add w.hash ses)
    filed := Function.update w.filed key (HashTable.filedAfter (w.filed key) w.hash obj ses) }

/-- `price_unsubscribe` and its siblings, which `on_close` calls too. -/
def unsubscribe (w : SesDicts K) (ses : Ses) : SesDicts K :=
  { w with dicts := Dict.mapValues (fun obj => obj.delete w.hash ses) w.dicts }

def step (w : SesDicts K) : SesAct K → SesDicts K
  | .subscribe ses key => w.subscribe ses key
  | .unsubscribe ses => w.unsubscribe ses
  | .activity ses memory => { w with memory := Function.update w.memory ses memory }
  | .sweep key =>
    { w with
      dicts := if (w.dicts.find key).any (fun obj => obj.used = 0) then w.dicts.erase key else w.dicts }

def run (w : SesDicts K) (acts : List (SesAct K)) : SesDicts K := acts.foldl step w

/-- A session in the dictionary is where its hash has it now. -/
def SteadyIn (w : SesDicts K) (ses : Ses) (key : K) : Prop :=
  ∀ obj, w.dicts.find key = some obj → obj.Steady (w.filed key) w.hash ses

/-- Who subscribes or unsubscribes is, in the dictionaries looked at. -/
def Careful (w : SesDicts K) : SesAct K → Prop
  | .subscribe ses key => w.SteadyIn ses key
  | .unsubscribe ses => ∀ key, w.SteadyIn ses key
  | .activity _ _ | .sweep _ => True

/-- All steps of a run are careful. -/
def CarefulRun : SesDicts K → List (SesAct K) → Prop
  | _, [] => True
  | w, act :: acts => w.Careful act ∧ CarefulRun (w.step act) acts

/-- `ses` is in the dictionary of a topic. -/
def Listed (w : SesDicts K) (ses : Ses) (key : K) : Prop :=
  ∃ obj, w.dicts.find key = some obj ∧ ses ∈ obj.contents

/-- What `dict_add` of `price_subscribe` looks for. -/
def Found (w : SesDicts K) (ses : Ses) (key : K) : Prop :=
  ∃ obj, w.dicts.find key = some obj ∧ obj.find w.hash ses = true

end SesDicts

/-! ## Subscribers -/

section Topics

variable {K : Type} [DecidableEq K]

/-- What an action is to the table of subscribers. -/
def Topics.act (t : Topics Ses K Unit) : SesAct K → Topics Ses K Unit
  | .subscribe ses key => t.subscribe ses key ()
  | .unsubscribe ses => t.unsubscribe ses
  | .activity _ _ => t
  | .sweep key => if (t.find key).any (fun obj => obj.sessions = ∅) then t.erase key else t

/-- The dictionaries are the table of subscribers. -/
structure SesDicts.Tracks (w : SesDicts K) (t : Topics Ses K Unit) : Prop where
  agree : ∀ key, (w.dicts.find key).map HashTable.contents =
    (t.find key).map fun obj => obj.sessions.val
  counted : ∀ key obj, w.dicts.find key = some obj → obj.Counted
  filed : ∀ key obj, w.dicts.find key = some obj → obj.FiledBy (w.filed key)

namespace SesDicts

variable {w : SesDicts K} {t : Topics Ses K Unit}

/-- A dictionary is that of a topic. -/
theorem Tracks.topic (h : Tracks w t) {key : K} {obj : HashTable Ses}
    (hobj : w.dicts.find key = some obj) :
    ∃ topic, t.find key = some topic ∧ topic.sessions.val = obj.contents := by
  have hagree := h.agree key
  rw [hobj, Option.map_some] at hagree
  exact Option.map_eq_some_iff.mp hagree.symm

theorem Tracks.no_topic (h : Tracks w t) {key : K} (hnone : w.dicts.find key = none) :
    t.find key = none := by
  have hagree := h.agree key
  rw [hnone, Option.map_none] at hagree
  exact Option.map_eq_none_iff.mp hagree.symm

/-- The sessions of a topic, none of a new one. -/
theorem Tracks.getD (h : Tracks w t) (key : K) :
    ((w.dicts.find key).getD (.create 1024)).contents = ((t.find key).getD ⟨∅, ()⟩).sessions.val ∧
      ((w.dicts.find key).getD (.create 1024)).Counted ∧
      ((w.dicts.find key).getD (.create 1024)).FiledBy (w.filed key) := by
  cases hfind : w.dicts.find key with
  | none =>
    rw [h.no_topic hfind, Option.getD_none, Option.getD_none]
    exact ⟨HashTable.contents_create 1024, HashTable.counted_create 1024,
      fun _ _ _ hk => by cases hk⟩
  | some obj =>
    obtain ⟨topic, htopic, hcontents⟩ := h.topic hfind
    rw [htopic, Option.getD_some, Option.getD_some]
    exact ⟨hcontents.symm, h.counted key obj hfind, h.filed key obj hfind⟩

/-- To subscribe adds the session if it is not there. -/
theorem Tracks.subscribe (h : Tracks w t) {ses : Ses} {key : K} (hsteady : w.SteadyIn ses key) :
    Tracks (w.subscribe ses key) (t.subscribe ses key ()) := by
  obtain ⟨hcontents, hcounted, hfiled⟩ := h.getD key
  have hobj : ((w.dicts.find key).getD (.create 1024)).Steady (w.filed key) w.hash ses := by
    cases hfind : w.dicts.find key with
    | none =>
      intro hmem
      rw [Option.getD_none, HashTable.contents_create] at hmem
      exact absurd hmem (Multiset.notMem_zero _)
    | some obj => exact hsteady obj hfind
  have hfound := HashTable.find_iff hcounted hfiled hobj
  obtain ⟨hadd, haddCounted⟩ := HashTable.contents_add hcounted w.hash ses
  have haddFiled := hfiled.add hcounted w.hash ses fun hnot hmem => by
    rw [hfound.mpr hmem] at hnot
    cases hnot
  have hfind : ∀ key', (w.subscribe ses key).dicts.find key' = if key' = key then
      some (((w.dicts.find key).getD (.create 1024)).add w.hash ses) else w.dicts.find key' :=
    fun _ => Dict.find_insert ..
  constructor
  · intro key'
    rw [hfind, Topics.find_subscribe]
    by_cases hkey : key' = key
    · rw [if_pos hkey, if_pos hkey, Option.map_some, Option.map_some, hadd]
      refine congrArg some ?_
      dsimp only
      rw [hcontents] at hfound ⊢
      split_ifs with hmem
      · rw [Finset.insert_eq_of_mem (Finset.mem_val.mp (hfound.mp hmem))]
      · rw [Finset.insert_val_of_notMem fun hin => hmem (hfound.mpr hin)]
    · rw [if_neg hkey, if_neg hkey]
      exact h.agree key'
  · intro key' obj hobj'
    rw [hfind] at hobj'
    split_ifs at hobj'
    · obtain rfl := Option.some.inj hobj'
      exact haddCounted
    · exact h.counted key' obj hobj'
  · intro key' obj hobj'
    rw [hfind] at hobj'
    show obj.FiledBy (Function.update w.filed key _ key')
    split_ifs at hobj' with hkey
    · obtain rfl := Option.some.inj hobj'
      subst hkey
      rw [Function.update_self]
      exact haddFiled
    · rw [Function.update_of_ne hkey]
      exact h.filed key' obj hobj'

/-- To unsubscribe takes the session out of all topics. -/
theorem Tracks.unsubscribe (h : Tracks w t) {ses : Ses} (hsteady : ∀ key, w.SteadyIn ses key) :
    Tracks (w.unsubscribe ses) (t.unsubscribe ses) := by
  have hfind : ∀ key, (w.unsubscribe ses).dicts.find key =
      (w.dicts.find key).map fun obj => obj.delete w.hash ses := fun _ => Dict.find_mapValues ..
  have hdelete : ∀ key obj, w.dicts.find key = some obj →
      (obj.delete w.hash ses).contents = obj.contents.erase ses ∧ (obj.delete w.hash ses).Counted ∧
        (obj.delete w.hash ses).FiledBy (w.filed key) := fun key obj hobj =>
    HashTable.contents_delete (h.counted key obj hobj) (h.filed key obj hobj) (hsteady key obj hobj)
  constructor
  · intro key
    rw [hfind, Topics.find_unsubscribe]
    cases hobj : w.dicts.find key with
    | none =>
      rw [h.no_topic hobj]
      rfl
    | some obj =>
      obtain ⟨topic, htopic, hcontents⟩ := h.topic hobj
      rw [htopic, Option.map_some, Option.map_some, Option.map_some, Option.map_some,
        (hdelete key obj hobj).1, ← hcontents, Finset.erase_val]
  · intro key obj' hobj'
    rw [hfind] at hobj'
    obtain ⟨obj, hobj, rfl⟩ := Option.map_eq_some_iff.mp hobj'
    exact (hdelete key obj hobj).2.1
  · intro key obj' hobj'
    rw [hfind] at hobj'
    obtain ⟨obj, hobj, rfl⟩ := Option.map_eq_some_iff.mp hobj'
    exact (hdelete key obj hobj).2.2

/-- A topic without sessions has no subscribers. -/
theorem Tracks.sweep (h : Tracks w t) (key : K) :
    Tracks (w.step (.sweep key)) (t.act (.sweep key)) := by
  have hsame : (w.dicts.find key).any (fun obj => obj.used = 0) =
      (t.find key).any fun obj => obj.sessions = ∅ := by
    cases hobj : w.dicts.find key with
    | none =>
      rw [h.no_topic hobj]
      rfl
    | some obj =>
      obtain ⟨topic, htopic, hcontents⟩ := h.topic hobj
      rw [htopic, Option.any_some, Option.any_some, (h.counted key obj hobj).used, ← hcontents,
        Finset.card_val]
      simp
  unfold SesDicts.step Topics.act
  dsimp only
  rw [hsame]
  split_ifs
  · refine ⟨fun key' => ?_, fun key' obj hobj => ?_, fun key' obj hobj => ?_⟩
    · show (Dict.find (w.dicts.erase key) key').map _ = (Dict.find (Finmap.erase key t) key').map _
      rw [Dict.find_erase, Dict.find_erase]
      split_ifs
      · rfl
      · exact h.agree key'
    · replace hobj := (Dict.find_erase _ _ _).symm.trans hobj
      split_ifs at hobj
      exact h.counted key' obj hobj
    · replace hobj := (Dict.find_erase _ _ _).symm.trans hobj
      split_ifs at hobj
      exact h.filed key' obj hobj
  · exact ⟨h.agree, h.counted, h.filed⟩

theorem Tracks.step (h : Tracks w t) {act : SesAct K} (hcareful : w.Careful act) :
    Tracks (w.step act) (t.act act) := by
  cases act with
  | subscribe ses key => exact h.subscribe hcareful
  | unsubscribe ses => exact h.unsubscribe hcareful
  | activity ses memory => exact ⟨h.agree, h.counted, h.filed⟩
  | sweep key => exact h.sweep key

theorem tracks_start (memory : Ses → List UInt8) : Tracks (start memory : SesDicts K) ∅ :=
  ⟨fun _ => rfl, fun _ _ hobj => (nomatch hobj), fun _ _ hobj => (nomatch hobj)⟩

theorem Tracks.run (h : Tracks w t) {acts : List (SesAct K)} (hcareful : w.CarefulRun acts) :
    Tracks (w.run acts) (acts.foldl Topics.act t) := by
  induction acts generalizing w t with
  | nil => exact h
  | cons act acts ih => exact ih (h.step hcareful.1) hcareful.2

/-- Who is listed has subscribed. -/
theorem Tracks.listed_iff (h : Tracks w t) {ses : Ses} {key : K} :
    w.Listed ses key ↔ t.Has ses key := by
  constructor
  · rintro ⟨obj, hobj, hmem⟩
    obtain ⟨topic, htopic, hcontents⟩ := h.topic hobj
    exact ⟨topic, htopic, Finset.mem_val.mp (hcontents ▸ hmem)⟩
  · rintro ⟨topic, htopic, hmem⟩
    have hagree := h.agree key
    rw [htopic, Option.map_some] at hagree
    obtain ⟨obj, hobj, hcontents⟩ := Option.map_eq_some_iff.mp hagree
    exact ⟨obj, hobj, hcontents ▸ hmem⟩

/-- A session that is there is found exactly where its hash has it. -/
theorem Tracks.found_iff (h : Tracks w t) {ses : Ses} {key : K} (hlisted : w.Listed ses key) :
    w.Found ses key ↔ w.SteadyIn ses key := by
  obtain ⟨obj, hobj, hmem⟩ := hlisted
  constructor
  · rintro ⟨obj', hobj', hfind⟩ obj'' hobj''
    obtain rfl := Option.some.inj (hobj'.symm.trans hobj'')
    exact HashTable.steady_of_mem_bucket (h.filed key obj' hobj') (h.counted key obj' hobj').size
      (of_decide_eq_true hfind)
  · intro hsteady
    exact ⟨obj, hobj, (HashTable.find_iff (h.counted key obj hobj) (h.filed key obj hobj)
      (hsteady obj hobj)).mpr hmem⟩

/-- **Session dictionaries.** -/
theorem sessions_stable (memory : Ses → List UInt8) {acts : List (SesAct K)}
    (h : (start memory).CarefulRun acts) :
    (∀ key obj, ((start memory).run acts).dicts.find key = some obj → obj.contents.Nodup) ∧
    (∀ ses key, ((start memory).run acts).Listed ses key ↔ (acts.foldl Topics.act ∅).Has ses key) ∧
    (∀ ses key, ((start memory).run acts).Careful (.subscribe ses key) →
      (((start memory).run acts).Found ses key ↔ ((start memory).run acts).Listed ses key) ∧
      (((start memory).run acts).subscribe ses key).Listed ses key) ∧
    ∀ ses, ((start memory).run acts).Careful (.unsubscribe ses) →
      ∀ key, ¬(((start memory).run acts).unsubscribe ses).Listed ses key := by
  have htracks := (tracks_start memory).run h
  generalize (start memory).run acts = w at htracks
  refine ⟨fun key obj hobj => ?_, fun ses key => htracks.listed_iff,
    fun ses key hcareful => ⟨?_, ?_⟩, fun ses hcareful key hlisted => ?_⟩
  · obtain ⟨topic, -, hcontents⟩ := htracks.topic hobj
    rw [← hcontents]
    exact topic.sessions.nodup
  · refine exists_congr fun obj => and_congr_right fun hobj => ?_
    exact HashTable.find_iff (htracks.counted key obj hobj) (htracks.filed key obj hobj)
      (hcareful obj hobj)
  · rw [(htracks.subscribe hcareful).listed_iff, Topics.has_subscribe]
    exact Or.inl ⟨rfl, rfl⟩
  · rw [(htracks.unsubscribe hcareful).listed_iff, Topics.has_unsubscribe] at hlisted
    exact hlisted.1 rfl

end SesDicts

end Topics

/-! ## A session with an event that waits -/

namespace SesDicts

/-- A watcher that is active, with nothing pending. -/
def idleMemory : Ses → List UInt8 := fun _ => [1, 0, 0, 0, 0, 0, 0, 0]

/-- Its first event is queued. -/
def pendingMemory : List UInt8 := [1, 0, 0, 0, 1, 0, 0, 0]

/-- The session subscribes, has an event queued and handled, and unsubscribes. -/
def steadyActs : List (SesAct String) :=
  [.subscribe 5 "BTCCNY", .activity 5 pendingMemory, .activity 5 (idleMemory 5), .unsubscribe 5]

theorem sessions_stable_idle : ((start idleMemory).run steadyActs).Listed 5 "BTCCNY" ↔
    (steadyActs.foldl Topics.act ∅).Has 5 "BTCCNY" := by
  have hcareful : (start idleMemory).CarefulRun steadyActs := by
    refine ⟨fun _ hobj => (nomatch hobj), trivial, trivial, fun key obj hobj _ => ?_, trivial⟩
    by_cases hkey : key = "BTCCNY"
    · subst hkey
      have hsame : (((start idleMemory).run (steadyActs.take 3)).filed "BTCCNY") 5 =
          ((start idleMemory).run (steadyActs.take 3)).hash 5 := by
        decide +kernel
      exact congrArg (· &&& (obj.size - 1)) hsame.symm
    · replace hobj := (Dict.find_insert _ _ _ _).symm.trans hobj
      rw [if_neg hkey] at hobj
      cases hobj
  exact (sessions_stable idleMemory hcareful).2.1 5 "BTCCNY"

/-- Subscribed twice, with an event queued in between, and unsubscribed. -/
def unsteadyActs : List (SesAct String) :=
  [.subscribe 5 "BTCCNY", .activity 5 pendingMemory, .subscribe 5 "BTCCNY", .unsubscribe 5]

/-- The session has been added twice, and is still in the dictionary. -/
theorem session_added_twice :
    ¬(∀ (memory : Ses → List UInt8) (acts : List (SesAct String)) (key : String) (obj : HashTable Ses),
      ((start memory).run acts).dicts.find key = some obj → obj.contents.Nodup) ∧
    ((start idleMemory).run unsteadyActs).Listed 5 "BTCCNY" := by
  have hcareful : (start idleMemory).CarefulRun (unsteadyActs.take 2) :=
    ⟨fun _ hobj => (nomatch hobj), trivial, trivial⟩
  obtain ⟨-, hcounted, -⟩ := ((tracks_start idleMemory).run hcareful).getD "BTCCNY"
  constructor
  · intro hall
    have hnodup := hall idleMemory (unsteadyActs.take 3) "BTCCNY" _ (Dict.find_insert ..)
    have hmem : 5 ∈ ((((start idleMemory).run (unsteadyActs.take 2)).dicts.find "BTCCNY").getD
        (.create 1024)).contents :=
      HashTable.mem_contents.mpr ⟨580, by decide +kernel, by decide +kernel⟩
    have hmissed : ((((start idleMemory).run (unsteadyActs.take 2)).dicts.find "BTCCNY").getD
        (.create 1024)).find ((start idleMemory).run (unsteadyActs.take 2)).hash 5 = false := by
      decide +kernel
    have hadd :=
      (HashTable.contents_add hcounted ((start idleMemory).run (unsteadyActs.take 2)).hash 5).1
    rw [hmissed, if_neg Bool.false_ne_true] at hadd
    have htwice := hadd ▸ hnodup
    exact (Multiset.nodup_cons.mp htwice).1 hmem
  · refine ⟨_, (Dict.find_mapValues _ _ _).trans (congrArg _ (Dict.find_insert _ _ _ _)), ?_⟩
    exact HashTable.mem_contents.mpr ⟨580, by decide +kernel, by decide +kernel⟩

end SesDicts

end ViabtcExchange
