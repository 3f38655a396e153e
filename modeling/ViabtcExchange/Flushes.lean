import ViabtcExchange.KlineFlush

/-!
# What a flush leaves

Of each part of `flush_market` a triple says what it makes of Redis and of the marks, up to
`triple_flushMarket`: as long as no bar is missed, whatever is not marked any more is in Redis as it
is in memory, and Redis is behind its offset by nothing once the offset is written. A flush that
dies leaves Redis as it was, or ahead of its offset.
-/

namespace ViabtcExchange

open Wire

variable {D : Type}

/-- Redis has what the memory has, but for what is marked. -/
structure Synced (r : Redis D) (dict : Dict String (MarketInfo D)) : Prop where
  sync : ∀ name info, dict.find name = some info → ∀ type start, (type, start) ∉ info.update →
    r.bar name type start = (info.kline type).find start
  absent : ∀ name, dict.find name = none → ∀ type start, r.bar name type start = none

/-! ## A flush -/

/-- No command fails. -/
def Fine (A : Answer → Prop) : Prop := ∀ a, A a → a.fine

/-- In a flush that began with `r₀`: nothing is lost unless a bar is missed, nothing is written
unless Redis is ahead of its offset. -/
structure Flushing (A : Answer → Prop) (r₀ : Redis D) (dict : Dict String (MarketInfo D))
    (r : Redis D) : Prop where
  synced : r.missed = false → Synced r dict
  still : r.ahead = false → r₀.ahead = false ∧ r.kline = r₀.kline
  offset : r.offset = r₀.offset
  fine : Fine A → r.missed = r₀.missed

/-- What a flush leaves that dies. -/
structure Died (r₀ r : Redis D) : Prop where
  still : r.ahead = false → r₀.ahead = false ∧ r.kline = r₀.kline
  offset : r.offset = r₀.offset

section Flush

variable {A : Answer → Prop} {r₀ r : Redis D} {dict : Dict String (MarketInfo D)} {name : String}
  {info : MarketInfo D}

theorem Flushing.died (h : Flushing A r₀ dict r) : Died r₀ r := ⟨h.still, h.offset⟩

theorem Flushing.of_same {r' : Redis D} (h : Flushing A r₀ dict r) (hkline : r'.kline = r.kline)
    (hoffset : r'.offset = r.offset) (hahead : r'.ahead = r.ahead)
    (hmissed : r'.missed = r.missed) :
    Flushing A r₀ dict r' where
  synced hm := by
    have hold := h.synced (hmissed ▸ hm)
    have hbar : ∀ name type start, r'.bar name type start = r.bar name type start := by
      intro name type start
      unfold Redis.bar
      rw [hkline]
    exact ⟨fun name info hinfo type start hmark => (hbar ..).trans (hold.sync name info hinfo type
      start hmark),
        fun name hname type start => (hbar ..).trans (hold.absent name hname type start)⟩
  still ha := by
    rw [hkline]
    exact h.still (hahead ▸ ha)
  offset := hoffset.trans h.offset
  fine hA := hmissed.trans (h.fine hA)

theorem Flushing.setLast (h : Flushing A r₀ dict r) (last : D) (applied : Bool) :
    Flushing A r₀ dict (r.setLast name last applied) := by
  cases applied <;> exact h.of_same rfl rfl rfl rfl

theorem Flushing.lpush (h : Flushing A r₀ dict r) (deals : List (DealMessage D)) (applied : Bool) :
    Flushing A r₀ dict (r.lpush name deals applied) := by
  cases applied <;> exact h.of_same rfl rfl rfl rfl

theorem Flushing.ltrim (h : Flushing A r₀ dict r) (applied : Bool) :
    Flushing A r₀ dict (r.ltrim name applied) := by
  cases applied <;> exact h.of_same rfl rfl rfl rfl

/-- Only the bars and the marks of a market matter. -/
theorem Flushing.put (h : Flushing A r₀ dict r) (info' : MarketInfo D)
    (hinfo : dict.find name = some info) (hkline : info'.kline = info.kline)
    (hmarks : ∀ key, key ∈ info.update → key ∈ info'.update) :
    Flushing A r₀ (dict.insert name info') r where
  synced hm := by
    have hold := h.synced hm
    constructor
    · intro name' info'' hfind type start hmark
      rw [Dict.find_insert] at hfind
      split_ifs at hfind with heq
      · obtain rfl := Option.some.inj hfind
        rw [heq, hkline]
        exact hold.sync name info hinfo type start fun hin => hmark (hmarks _ hin)
      · exact hold.sync name' info'' hfind type start hmark
    · intro name' hfind
      rw [Dict.find_insert] at hfind
      split_ifs at hfind
      exact hold.absent name' hfind
  still := h.still
  offset := h.offset
  fine := h.fine

/-- The market with only some of its marks left. -/
def MarketInfo.marked (info : MarketInfo D) (keys : List UpdateMark) : MarketInfo D :=
  { info with update := keys.toFinset }

theorem bar_hset (type type' : KlineType) (start start' : ℤ) (kinfo : Kline D) (name' : String) :
    (r.hset name type start kinfo true).bar name' type' start' =
      if name' = name ∧ type' = type ∧ start' = start then some kinfo
      else r.bar name' type' start' := by
  show (Function.update r.kline name (Function.update (r.kline name) type
    ((r.kline name type).insert start kinfo)) name' type').find start' = _
  by_cases hname : name' = name
  · subst hname
    rw [Function.update_self]
    by_cases htype : type' = type
    · subst htype
      rw [Function.update_self, Dict.find_insert]
      simp [Redis.bar]
    · rw [Function.update_of_ne htype]
      simp [htype, Redis.bar]
  · rw [Function.update_of_ne hname]
    simp [hname, Redis.bar]

/-- Writing a bar makes up for its mark. -/
theorem Flushing.hset {key : UpdateMark} {keys : List UpdateMark} {kinfo : Kline D}
    (h : Flushing A r₀ (dict.insert name (info.marked (key :: keys))) r)
    (hbar : (info.kline key.1).find key.2 = some kinfo) {a : Answer} (ha : A a) :
    Flushing A r₀ (dict.insert name (info.marked keys))
      (r.hset name key.1 key.2 kinfo a.applied) := by
  cases happlied : a.applied with
  | false =>
    exact
      { synced := fun hm => Bool.noConfusion hm
        still := h.still
        offset := h.offset
        fine := fun hA => absurd (hA a ha).1 (by simp [happlied]) }
  | true =>
    refine ⟨fun hm => ?_, fun ha => Bool.noConfusion ha, h.offset, h.fine⟩
    have hold := h.synced hm
    constructor
    · intro name' info' hfind type start hmark
      rw [bar_hset]
      rw [Dict.find_insert] at hfind
      split_ifs at hfind with heq
      · obtain rfl := Option.some.inj hfind
        by_cases hkey : type = key.1 ∧ start = key.2
        · obtain ⟨rfl, rfl⟩ := hkey
          rw [if_pos ⟨heq, rfl, rfl⟩]
          exact hbar.symm
        · rw [if_neg fun hall => hkey hall.2]
          refine hold.sync name' (info.marked (key :: keys)) ?_ type start ?_
          · rw [Dict.find_insert, if_pos heq]
          · unfold MarketInfo.marked at hmark ⊢
            rw [List.mem_toFinset] at hmark ⊢
            intro hin
            rcases List.mem_cons.mp hin with hfirst | hin
            · exact hkey ⟨congrArg Prod.fst hfirst, congrArg Prod.snd hfirst⟩
            · exact hmark hin
      · rw [if_neg fun hall => heq hall.1]
        refine hold.sync name' info' ?_ type start hmark
        rw [Dict.find_insert, if_neg heq]
        exact hfind
    · intro name' hfind type start
      rw [Dict.find_insert] at hfind
      split_ifs at hfind with heq
      rw [bar_hset, if_neg fun hall => heq hall.1]
      refine hold.absent name' ?_ type start
      rw [Dict.find_insert, if_neg heq]
      exact hfind

/-- Every mark is the mark of a bar. -/
def MarketInfo.Marks (info : MarketInfo D) : Prop :=
  ∀ key ∈ info.update, ∃ kinfo, (info.kline key.1).find key.2 = some kinfo

/-- The rest of a loop over marks. -/
def FlushingMarks (A : Answer → Prop) (r₀ : Redis D) (dict : Dict String (MarketInfo D))
    (name : String) (info : MarketInfo D) (keys : List UpdateMark) (r : Redis D) : Prop :=
  (∀ key ∈ keys, ∃ kinfo, (info.kline key.1).find key.2 = some kinfo) ∧
    Flushing A r₀ (dict.insert name (info.marked keys)) r

theorem triple_flushKline (key : UpdateMark) (keys : List UpdateMark) :
    Triple A (FlushingMarks A r₀ dict name info (key :: keys)) (flushKline name info key)
      (fun _ => FlushingMarks A r₀ dict name info keys) (Died r₀) := by
  unfold flushKline
  cases hbar : (info.kline key.1).find key.2 with
  | none =>
    refine triple_pure fun r h => ?_
    obtain ⟨kinfo, hkinfo⟩ := h.1 key (List.mem_cons_self ..)
    rw [hbar] at hkinfo
    cases hkinfo
  | some kinfo =>
    have hsend : Triple A (FlushingMarks A r₀ dict name info (key :: keys))
        (send (Redis.hset name key.1 key.2 kinfo)) (fun _ => FlushingMarks A r₀ dict name info keys)
        (Died r₀) := by
      refine triple_send (fun r h => h.2.died) fun r a h ha => ?_
      exact ⟨fun key' hkey' => h.1 key' (List.mem_cons_of_mem _ hkey'), h.2.hset hbar ha⟩
    exact triple_bind hsend fun _ => triple_pure fun _ h => h

theorem triple_flushUpdate {keys : List UpdateMark} (hinfo : dict.find name = some info)
    (hmarks : info.Marks) (hkeys : ∀ key, key ∈ keys ↔ key ∈ info.update) :
    Triple A (Flushing A r₀ dict) (flushUpdate name info keys)
      (fun info' r => info' = { info with update := ∅ } ∧ Flushing A r₀ (dict.insert name info') r)
      (Died r₀) := by
  have hloop : Triple A (FlushingMarks A r₀ dict name info keys)
      (forEach (flushKline name info) keys) (fun _ => FlushingMarks A r₀ dict name info [])
      (Died r₀) :=
    triple_forEach triple_flushKline keys
  refine triple_bind (hloop.weaken (fun r h => ⟨?_, ?_⟩) fun _ _ h => h) fun _ =>
    triple_pure fun r h => ⟨rfl, h.2⟩
  · exact fun key hkey => hmarks key ((hkeys key).mp hkey)
  · refine h.put _ hinfo rfl fun key hkey => ?_
    exact List.mem_toFinset.mpr ((hkeys key).mpr hkey)

/-- What a flush makes of a market. -/
structure Cleared (info info' : MarketInfo D) : Prop where
  kline : info'.kline = info.kline
  update : info'.update = ∅
  updateTime : info'.updateTime = info.updateTime

theorem Cleared.marks {info' : MarketInfo D} (h : Cleared info info') : info'.Marks := by
  intro key hkey
  rw [h.update] at hkey
  exact absurd hkey (Finset.notMem_empty key)

theorem triple_flushDeals {info' : MarketInfo D} (hcleared : Cleared info info') :
    Triple A (Flushing A r₀ (dict.insert name info')) (flushDeals name info')
      (fun res r => Cleared info res.2 ∧ (Fine A → res.1 = true) ∧
        Flushing A r₀ (dict.insert name res.2) r) (Died r₀) := by
  have hpush : Triple A (Flushing A r₀ (dict.insert name info'))
      (send (Redis.lpush name info'.deals))
      (fun replied r => (Fine A → replied = true) ∧ Flushing A r₀ (dict.insert name info') r)
      (Died r₀) :=
    triple_send (fun r h => h.died) fun r a h ha => ⟨fun hA => (hA a ha).2, h.lpush _ _⟩
  unfold flushDeals
  refine triple_bind hpush fun replied => ?_
  cases replied with
  | false =>
    rw [if_neg Bool.false_ne_true]
    exact triple_pure fun r h => ⟨hcleared, h.1, h.2⟩
  | true =>
    rw [if_pos rfl]
    have htrim : Triple A
        (fun r => (Fine A → true = true) ∧ Flushing A r₀ (dict.insert name info') r)
        (send (Redis.ltrim name)) (fun _ => Flushing A r₀ (dict.insert name info')) (Died r₀) :=
      triple_send (fun r h => h.2.died) fun r a h _ => h.2.ltrim _
    refine triple_bind htrim fun _ => triple_pure fun r h => ?_
    refine ⟨⟨hcleared.kline, hcleared.update, hcleared.updateTime⟩, fun _ => rfl, ?_⟩
    have hput := h.put { info' with deals := [] } (Finmap.lookup_insert _) rfl
      fun _ hkey => hkey
    rwa [Finmap.insert_insert] at hput

theorem triple_flushOne {keys : List UpdateMark} (hinfo : dict.find name = some info)
    (hmarks : info.Marks) (hkeys : ∀ key, key ∈ keys ↔ key ∈ info.update) :
    Triple A (Flushing A r₀ dict) (flushOne name info keys)
      (fun res r => Cleared info res.2 ∧ (Fine A → res.1 = true) ∧
        Flushing A r₀ (dict.insert name res.2) r) (Died r₀) := by
  unfold flushOne
  refine triple_bind (triple_flushUpdate hinfo hmarks hkeys) fun info' => ?_
  have hlast : Triple A
      (fun r => info' = { info with update := ∅ } ∧ Flushing A r₀ (dict.insert name info') r)
      (send (Redis.setLast name info'.last))
      (fun replied r => (Fine A → replied = true) ∧ Cleared info info' ∧
        Flushing A r₀ (dict.insert name info') r) (Died r₀) := by
    refine triple_send (fun r h => h.2.died) fun r a h ha => ?_
    exact ⟨fun hA => (hA a ha).2, ⟨by rw [h.1], by rw [h.1], by rw [h.1]⟩, h.2.setLast _ _⟩
  refine triple_bind hlast fun replied => ?_
  cases replied with
  | false =>
    rw [if_neg Bool.false_ne_true]
    exact triple_pure fun r h => ⟨h.2.1, h.1, h.2.2⟩
  | true =>
    rw [if_pos rfl]
    by_cases hdeals : info'.deals = []
    · rw [if_pos hdeals]
      exact triple_pure fun r h => ⟨h.2.1, fun _ => rfl, h.2.2⟩
    · rw [if_neg hdeals]
      intro r answers h hA
      exact triple_flushDeals h.2.1 r answers h.2.2 hA

/-! ### All markets -/

/-- `dict'` has the markets of `dict`, some without their marks. -/
structure Drains (dict dict' : Dict String (MarketInfo D)) : Prop where
  markets : ∀ name, dict'.find name = none ↔ dict.find name = none
  kept : ∀ name info', dict'.find name = some info' → ∃ info, dict.find name = some info ∧
    info'.kline = info.kline ∧ info'.updateTime = info.updateTime ∧
      (info'.update = info.update ∨ info'.update = ∅)

theorem Drains.refl (dict : Dict String (MarketInfo D)) : Drains dict dict :=
  ⟨fun _ => Iff.rfl, fun _ info h => ⟨info, h, rfl, rfl, Or.inl rfl⟩⟩

theorem Drains.put {dict' : Dict String (MarketInfo D)} {info' : MarketInfo D}
    (h : Drains dict dict') (hinfo : dict'.find name = some info) (hcleared : Cleared info info') :
    Drains dict (dict'.insert name info') := by
  constructor
  · intro name'
    rw [Dict.find_insert]
    split_ifs with heq
    · rw [heq, ← h.markets, hinfo]
      simp
    · exact h.markets name'
  · intro name' info'' hfind
    rw [Dict.find_insert] at hfind
    split_ifs at hfind with heq
    · obtain rfl := Option.some.inj hfind
      obtain ⟨info₀, hinfo₀, hkline, htime, -⟩ := h.kept name info hinfo
      exact ⟨info₀, heq ▸ hinfo₀, hcleared.kline.trans hkline, hcleared.updateTime.trans htime,
        Or.inr hcleared.update⟩
    · exact h.kept name' info'' hfind

/-- What the loop over markets knows of those it has not come to, and of the others. -/
structure Sweep (lastFlush : ℚ) (dict : Dict String (MarketInfo D))
    (entries : List (String × List UpdateMark)) : Prop where
  marks : ∀ name info, dict.find name = some info → info.Marks
  fresh : ∀ name info, dict.find name = some info → info.updateTime < lastFlush → info.update = ∅
  nodup : (entries.map Prod.fst).Nodup
  keys : ∀ entry ∈ entries, ∀ info, dict.find entry.1 = some info →
    ∀ key, key ∈ entry.2 ↔ key ∈ info.update
  done : ∀ name info, dict.find name = some info → name ∉ entries.map Prod.fst → info.update = ∅

theorem Sweep.pass {lastFlush : ℚ} {entry : String × List UpdateMark}
    {entries : List (String × List UpdateMark)} (h : Sweep lastFlush dict (entry :: entries))
    (hpass : ∀ info, dict.find entry.1 = some info → info.update = ∅) :
    Sweep lastFlush dict entries where
  marks := h.marks
  fresh := h.fresh
  nodup := (List.nodup_cons.mp h.nodup).2
  keys e he := h.keys e (List.mem_cons_of_mem _ he)
  done name info hinfo hname := by
    by_cases heq : name = entry.1
    · subst heq
      exact hpass info hinfo
    · refine h.done name info hinfo fun hin => ?_
      rcases List.mem_cons.mp hin with hfirst | hin
      · exact heq hfirst
      · exact hname hin

theorem Sweep.put {lastFlush : ℚ} {keys : List UpdateMark} {info' : MarketInfo D}
    {entries : List (String × List UpdateMark)} (h : Sweep lastFlush dict ((name, keys) :: entries))
    (hcleared : Cleared info info') : Sweep lastFlush (dict.insert name info') entries := by
  have hfind : ∀ {name' : String} {info'' : MarketInfo D},
      Dict.find (dict.insert name info') name' = some info'' →
        name' = name ∧ info'' = info' ∨ name' ≠ name ∧ dict.find name' = some info'' := by
    intro name' info'' hfind
    rw [Dict.find_insert] at hfind
    split_ifs at hfind with heq
    · exact Or.inl ⟨heq, (Option.some.inj hfind).symm⟩
    · exact Or.inr ⟨heq, hfind⟩
  constructor
  · intro name' info'' hinfo
    rcases hfind hinfo with ⟨-, rfl⟩ | ⟨-, hinfo⟩
    · exact hcleared.marks
    · exact h.marks name' info'' hinfo
  · intro name' info'' hinfo htime
    rcases hfind hinfo with ⟨-, rfl⟩ | ⟨-, hinfo⟩
    · exact hcleared.update
    · exact h.fresh name' info'' hinfo htime
  · exact (List.nodup_cons.mp h.nodup).2
  · intro e he info'' hinfo
    rcases hfind hinfo with ⟨heq, -⟩ | ⟨-, hinfo⟩
    · exact absurd (List.mem_map.mpr ⟨e, he, heq⟩) (List.nodup_cons.mp h.nodup).1
    · exact h.keys e (List.mem_cons_of_mem _ he) info'' hinfo
  · intro name' info'' hinfo hname
    rcases hfind hinfo with ⟨-, rfl⟩ | ⟨hne, hinfo⟩
    · exact hcleared.update
    · refine h.done name' info'' hinfo fun hin => ?_
      rcases List.mem_cons.mp hin with hfirst | hin
      · exact hne hfirst
      · exact hname hin

/-- `p'` is `p` after a part of a flush. -/
structure Flushed (A : Answer → Prop) (p : MarketPrice D) (ok : Bool) (p' : MarketPrice D) :
    Prop where
  drains : Drains p.dictMarket p'.dictMarket
  marks : ∀ name info, p'.dictMarket.find name = some info → info.Marks
  fresh : ∀ name info, p'.dictMarket.find name = some info → info.updateTime < p.lastFlush →
    info.update = ∅
  lastFlush : p'.lastFlush = p.lastFlush
  lastOffset : p'.lastOffset = p.lastOffset
  position : p'.position = p.position
  clear : ok = true → ∀ name info, p'.dictMarket.find name = some info → info.update = ∅
  fine : Fine A → ok = true

theorem triple_flushMarkets {p₀ : MarketPrice D} (entries : List (String × List UpdateMark)) :
    ∀ p : MarketPrice D, Drains p₀.dictMarket p.dictMarket → p.lastFlush = p₀.lastFlush →
      p.lastOffset = p₀.lastOffset → p.position = p₀.position →
      Sweep p₀.lastFlush p.dictMarket entries →
      Triple A (Flushing A r₀ p.dictMarket) (flushMarkets p entries)
        (fun res r => Flushed A p₀ res.1 res.2 ∧ Flushing A r₀ res.2.dictMarket r) (Died r₀) := by
  induction entries with
  | nil =>
    intro p hdrains hflush hoffset hposition hsweep
    refine triple_pure fun r h => ⟨?_, h⟩
    exact ⟨hdrains, hsweep.marks, hsweep.fresh, hflush, hoffset, hposition,
      fun _ name info hinfo => hsweep.done name info hinfo List.not_mem_nil, fun _ => rfl⟩
  | cons entry entries ih =>
    intro p hdrains hflush hoffset hposition hsweep
    obtain ⟨name, keys⟩ := entry
    unfold flushMarkets
    cases hinfo : p.dictMarket.find name with
    | none =>
      refine ih p hdrains hflush hoffset hposition (hsweep.pass fun info hsome => ?_)
      rw [hinfo] at hsome
      cases hsome
    | some info =>
      dsimp only
      by_cases htime : info.updateTime < p.lastFlush
      · rw [if_pos htime]
        refine ih p hdrains hflush hoffset hposition (hsweep.pass fun info' hsome => ?_)
        obtain rfl := Option.some.inj (hinfo.symm.trans hsome)
        exact hsweep.fresh name info hinfo (hflush ▸ htime)
      · rw [if_neg htime]
        refine triple_bind (triple_flushOne hinfo (hsweep.marks name info hinfo)
          (hsweep.keys _ (List.mem_cons_self ..) info hinfo)) fun res => ?_
        intro r answers h hA
        obtain ⟨hcleared, hfine, h⟩ := h
        have hdrains' := hdrains.put hinfo hcleared
        have hsweep' := hsweep.put hcleared
        cases hok : res.1 with
        | false =>
          refine ⟨⟨⟨hdrains', hsweep'.marks, hsweep'.fresh, hflush, hoffset, hposition,
            fun hfalse => absurd hfalse Bool.false_ne_true, fun hall => ?_⟩, h⟩, hA⟩
          exact hok ▸ hfine hall
        | true =>
          exact ih { p with dictMarket := p.dictMarket.insert name res.2 } hdrains' hflush hoffset
            hposition hsweep' r answers h hA

/-- What a flush leaves that comes to its end. -/
structure FlushDone (A : Answer → Prop) (r₀ : Redis D) (p p' : MarketPrice D) (now : ℚ)
    (r : Redis D) : Prop where
  drains : Drains p.dictMarket p'.dictMarket
  marks : ∀ name info, p'.dictMarket.find name = some info → info.Marks
  fresh : ∀ name info, p'.dictMarket.find name = some info → info.updateTime < p'.lastFlush →
    info.update = ∅
  lastFlush : p'.lastFlush = p.lastFlush ∨ p'.lastFlush = now
  lastOffset : p'.lastOffset = p.lastOffset
  position : p'.position = p.position
  synced : r.missed = false → Synced r p'.dictMarket
  ahead : r.ahead = false → r₀.ahead = false ∧ r.kline = r₀.kline ∧ r.offset = r₀.offset ∨
    r.offset = some p'.lastOffset ∧
      ∀ name info, p'.dictMarket.find name = some info → info.update = ∅
  offset : r.offset = r₀.offset ∨ r.offset = some p'.lastOffset
  fine : Fine A → r.missed = r₀.missed ∧
    ∀ name info, p'.dictMarket.find name = some info → info.update = ∅

theorem triple_flushMarket {p : MarketPrice D} {entries : List (String × List UpdateMark)}
    (hsweep : Sweep p.lastFlush p.dictMarket entries) (now : ℚ) :
    Triple A (Flushing A r₀ p.dictMarket) (flushMarket p entries now)
      (fun p' r => FlushDone A r₀ p p' now r) (Died r₀) := by
  unfold flushMarket
  refine triple_bind (triple_flushMarkets entries p (Drains.refl _) rfl rfl rfl hsweep) fun res =>
    ?_
  intro r answers h hA
  obtain ⟨hp, h⟩ := h
  obtain ⟨ok, p'⟩ := res
  cases ok with
  | false =>
    refine ⟨⟨hp.drains, hp.marks, ?_, Or.inl hp.lastFlush, hp.lastOffset, hp.position, h.synced,
      fun ha => Or.inl ⟨(h.still ha).1, (h.still ha).2, h.offset⟩, Or.inl h.offset,
      fun hall => absurd (hp.fine hall) Bool.false_ne_true⟩, hA⟩
    show ∀ name info, p'.dictMarket.find name = some info → info.updateTime < p'.lastFlush → _
    rw [hp.lastFlush]
    exact hp.fresh
  | true =>
    have hclear := hp.clear rfl
    have hoffset : Triple A (Flushing A r₀ p'.dictMarket) (send (Redis.setOffset p'.lastOffset))
        (fun replied r => FlushDone A r₀ p (if replied then { p' with lastFlush := now } else p')
          now r) (Died r₀) := by
      refine triple_send (fun r h => h.died) fun r a h ha => ?_
      have hend : ∀ q : MarketPrice D, q.dictMarket = p'.dictMarket →
          (q.lastFlush = p.lastFlush ∨ q.lastFlush = now) → q.lastOffset = p'.lastOffset →
          q.position = p'.position →
          FlushDone A r₀ p q now (r.setOffset p'.lastOffset a.applied) := by
        intro q hdict hflush hoffset hposition
        have hclear' : ∀ name info, q.dictMarket.find name = some info → info.update = ∅ := by
          rw [hdict]
          exact hclear
        refine
          { drains := hdict ▸ hp.drains
            marks := hdict ▸ hp.marks
            fresh := fun name info hinfo _ => hclear' name info hinfo
            lastFlush := hflush
            lastOffset := hoffset.trans hp.lastOffset
            position := hposition.trans hp.position
            synced := ?_
            ahead := ?_
            offset := ?_
            fine := ?_ }
        all_goals rw [Redis.setOffset]; cases happlied : a.applied
        · exact hdict ▸ h.synced
        · exact hdict ▸ fun hm => ⟨(h.synced hm).sync, (h.synced hm).absent⟩
        · exact fun ha => Or.inl ⟨(h.still ha).1, (h.still ha).2, h.offset⟩
        · exact fun _ => Or.inr ⟨congrArg some hoffset.symm, hclear'⟩
        · exact Or.inl h.offset
        · exact Or.inr (congrArg some hoffset.symm)
        · exact fun hall => absurd (hall a ha).1 (by simp [happlied])
        · exact fun hall => ⟨h.fine hall, hclear'⟩
      cases a.replied with
      | false => exact hend p' rfl (Or.inl hp.lastFlush) rfl rfl
      | true => exact hend { p' with lastFlush := now } rfl (Or.inr rfl) rfl rfl
    exact triple_bind hoffset (fun replied => triple_pure fun _ h => h) r answers h hA

end Flush

end ViabtcExchange
