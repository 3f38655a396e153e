import ViabtcExchange.Lib.TimedCache
import ViabtcExchange.Replies

/-!
# Replies that are kept (`me_server.c`, `mp_server.c`)

matchengine and marketprice keep some of their results for a while, each in a dictionary under the
number of the command and the body of the request. `process_cache` and `add_cache` are the same in
both; the handlers look at the parameters first, then there, and only then do they make a result.

`kept_eq` says that such a handler is a `CachingServer`.
-/

namespace ViabtcExchange

section Handler

variable {R α : Type}

/-- `process_cache`, and `add_cache` of what is made if nothing is found. -/
def cachedReply (timeout now : ℚ) (cache : TimedCache String R) (key : String)
    (compute : Except Refusal R) : TimedCache String R × Except Refusal R :=
  match cache.lookup timeout now key with
  | (cache, some result) => (cache, .ok result)
  | (cache, none) =>
    match compute with
    | .error e => (cache, .error e)
    | .ok result => (cache.keep now key result, .ok result)

/-- Go on with the parameters, if they can be read. -/
def onParams (cache : TimedCache String R) (read : Except Refusal α)
    (handle : α → TimedCache String R × Except Refusal R) : TimedCache String R × Except Refusal R :=
  match read with
  | .error e => (cache, .error e)
  | .ok args => handle args

/-- `svr_on_recv_pkg`, up to the command: a body that is no array closes the connection. -/
def onBody (loadb : String → Option Json) (cache : TimedCache String R) (body : String)
    (handle : List Json → TimedCache String R × Except Refusal R) :
    TimedCache String R × Option (Except Refusal R) :=
  match loadb body with
  | some (.array params) => ((handle params).1, some (handle params).2)
  | _ => (cache, none)

/-- What is done with the parameters of a body. -/
def withParams (loadb : String → Option Json) (body : String) (f : List Json → Except Refusal α) :
    Except (Option Refusal) α :=
  match loadb body with
  | some (.array params) => (f params).mapError some
  | _ => .error none

/-- How an answer is sent: not at all if the connection is closed. -/
def sent : Except (Option Refusal) α → Option (Except Refusal α)
  | .error none => none
  | .error (some e) => some (.error e)
  | .ok result => some (.ok result)

theorem sent_ok {answer : Except (Option Refusal) α} {result : α} :
    sent answer = some (.ok result) ↔ answer = .ok result := by
  rcases answer with (_ | e) | result' <;> simp [sent]

section Body

variable {loadb : String → Option Json} {body : String} {f : List Json → Except Refusal α}

theorem withParams_array {params : List Json} (hbody : loadb body = some (.array params)) :
    withParams loadb body f = (f params).mapError some := by
  unfold withParams
  rw [hbody]

theorem withParams_closed (hbody : ∀ params, loadb body ≠ some (.array params)) :
    withParams loadb body f = .error none := by
  unfold withParams
  split
  · rename_i params hparams
    exact absurd hparams (hbody params)
  · rfl

theorem withParams_ok {a : α} (h : withParams loadb body f = .ok a) :
    ∃ params, loadb body = some (.array params) ∧ f params = .ok a := by
  by_cases hbody : ∃ params, loadb body = some (.array params)
  · obtain ⟨params, hparams⟩ := hbody
    rw [withParams_array hparams] at h
    refine ⟨params, hparams, ?_⟩
    cases hf : f params with
    | error e => simp [hf, Except.mapError] at h
    | ok b => simpa [hf, Except.mapError] using h
  · rw [withParams_closed (not_exists.mp hbody)] at h
    cases h

end Body

theorem map_ok {read : Except Refusal α} (h : (read.map fun _ => ()) = .ok ()) :
    ∃ args, read = .ok args := by
  cases read with
  | error e => cases h
  | ok args => exact ⟨args, rfl⟩

end Handler

section Server

variable {S Q R α : Type} {v : CachingServer S Q String (Option Refusal) R} {s : S} {now : ℚ}
  {q : Q}
  {cache : TimedCache String R} {read : Except Refusal α}

/-- A request that is looked up. -/
theorem kept_eq {f : α → Except Refusal R} {key : String} (hkey : v.key q = some key)
    (haccept : v.accept s now q = (read.map fun _ => ()).mapError some)
    (hcompute : v.compute s now q = (read >>= f).mapError some) :
    let r := onParams cache read fun args => cachedReply v.timeout now cache key (f args)
    (r.1, some r.2) = ((v.answer s now cache q).1, sent (v.answer s now cache q).2) := by
  cases read with
  | error e => simp [onParams, CachingServer.answer, haccept, Except.map, Except.mapError, sent]
  | ok args =>
    have hok : v.accept s now q = .ok () := haccept
    have hf : v.compute s now q = (f args).mapError some := hcompute
    simp only [CachingServer.answer, hok, hkey, hf, onParams, cachedReply]
    rcases hcase : cache.lookup v.timeout now key with ⟨cache, _ | result⟩
    · cases hargs : f args <;> simp [Except.mapError, sent]
    · simp [sent]

/-- A request that is not. -/
theorem direct_eq {f : α → R} (hkey : v.key q = none) (haccept : v.accept s now q = .ok ())
    (hcompute : v.compute s now q = (read >>= fun args => .ok (f args)).mapError some) :
    let r := onParams cache read fun args => (cache, .ok (f args))
    (r.1, some r.2) = ((v.answer s now cache q).1, sent (v.answer s now cache q).2) := by
  simp only [CachingServer.answer, haccept, hkey, hcompute]
  cases read <;> simp [onParams, bind, Except.bind, Except.mapError, sent]

/-- A body that closes the connection. -/
theorem closed_eq (haccept : v.accept s now q = .error none) :
    (cache, none) = ((v.answer s now cache q).1, sent (v.answer s now cache q).2) := by
  simp [CachingServer.answer, haccept, sent]

/-- What is sent by a server that keeps nothing. -/
theorem answer_empty : sent (v.answer s now ∅ q).2 = sent (v.fresh s now q) := by
  unfold CachingServer.answer CachingServer.fresh
  cases v.accept s now q with
  | error e => rfl
  | ok u =>
    dsimp only
    cases v.key q with
    | none => rfl
    | some key =>
      have hlookup : (∅ : TimedCache String R).lookup v.timeout now key = (∅, none) := by
        unfold TimedCache.lookup
        rw [Dict.find_empty]
      dsimp only
      rw [hlookup]
      dsimp only
      cases v.compute s now q <;> rfl

end Server

end ViabtcExchange
