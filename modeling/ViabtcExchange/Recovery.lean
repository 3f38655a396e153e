import ViabtcExchange.Load
import ViabtcExchange.Runs

/-!
# Which operations a recovery replays

`load_operlog` refuses an id that is not the next one, so what a recovery replays is a run of
consecutive ids (`Applied`), from behind the slice up to some last one. Nothing makes it the last
one there is: a day whose table is not visited is not missed.

**Theorem (`initFromDb_complete_iff`).** A recovery that does not fail has replayed all there is
just when the table of the last operation was among those it visited: today's when there is no
slice, and else those of the days at which the loop arrives, 86400 seconds apart, from the time of
the slice on.
-/

namespace ViabtcExchange

section Applied

variable {σ δ : Type} {load : σ → ℕ × ℚ × δ → Option σ} {localtime : ℤ → Tm} {db : Db δ}

/-- From `s` on, the rows have been loaded, under consecutive ids. -/
structure Applied (load : σ → ℕ × ℚ × δ → Option σ) (s s' : σ × ℕ) (rows : List (ℕ × ℚ × δ)) :
    Prop where
  ids : rows.map Prod.fst = List.range' (s.2 + 1) rows.length
  fold : rows.foldlM load s.1 = some s'.1
  last : s'.2 = s.2 + rows.length

theorem Applied.nil (s : σ × ℕ) : Applied load s s [] := ⟨rfl, rfl, rfl⟩

theorem Applied.append {s s₁ s' : σ × ℕ} {rows rows' : List (ℕ × ℚ × δ)}
    (h : Applied load s s₁ rows) (h' : Applied load s₁ s' rows') :
    Applied load s s' (rows ++ rows') where
  ids := by
    rw [List.map_append, h.ids, h'.ids, h.last, List.length_append, ← List.range'_append_1,
      Nat.add_right_comm]
  fold := by
    rw [List.foldlM_append, h.fold]
    exact h'.fold
  last := by rw [h'.last, h.last, List.length_append, Nat.add_assoc]

theorem applied_foldlM {rows : List (ℕ × ℚ × δ)} : ∀ {s s' : σ × ℕ},
    rows.foldlM (loadRow load) s = some s' → Applied load s s' rows := by
  induction rows with
  | nil =>
    intro s s' h
    cases h
    exact .nil s
  | cons row rows ih =>
    intro s s' h
    rw [List.foldlM_cons] at h
    obtain ⟨s₁, hs₁, h⟩ := Option.bind_eq_some_iff.mp h
    unfold loadRow at hs₁
    split_ifs at hs₁ with hid
    obtain ⟨e, he, rfl⟩ := Option.map_eq_some_iff.mp hs₁
    have hid := not_not.mp hid
    have hrow : Applied load s (e, row.1) [row] :=
      ⟨by simp [hid], by rw [List.foldlM_cons, he]; rfl, by simp [hid]⟩
    exact hrow.append (ih h)

/-- What a step of the recovery has replayed, and that nothing is left of the tables it visited. -/
structure Recovered (load : σ → ℕ × ℚ × δ → Option σ) (db : Db δ) (visited : String → Prop)
    (s s' : σ × ℕ) : Prop where
  rows : ∃ rows, Applied load s s' rows ∧ ∀ row ∈ rows, ∃ table, visited table ∧ db.Stored table row
  above : ∀ table row, visited table → db.Stored table row → row.1 ≤ s'.2

theorem Recovered.le {visited : String → Prop} {s s' : σ × ℕ} (h : Recovered load db visited s s') :
    s.2 ≤ s'.2 := by
  obtain ⟨rows, happ, -⟩ := h.rows
  rw [happ.last]
  exact Nat.le_add_right _ _

theorem Recovered.trans {visited visited' : String → Prop} {s s₁ s' : σ × ℕ}
    (h : Recovered load db visited s s₁) (h' : Recovered load db visited' s₁ s') :
    Recovered load db (fun table => visited table ∨ visited' table) s s' where
  rows := by
    obtain ⟨rows, happ, hst⟩ := h.rows
    obtain ⟨rows', happ', hst'⟩ := h'.rows
    refine ⟨rows ++ rows', happ.append happ', fun row hrow => ?_⟩
    rcases List.mem_append.mp hrow with hrow | hrow
    · obtain ⟨table, hv, hst⟩ := hst row hrow
      exact ⟨table, Or.inl hv, hst⟩
    · obtain ⟨table, hv, hst⟩ := hst' row hrow
      exact ⟨table, Or.inr hv, hst⟩
  above := by
    rintro table row (hv | hv) hst
    · exact (h.above table row hv hst).trans h'.le
    · exact h'.above table row hv hst

theorem Recovered.congr {visited visited' : String → Prop} {s s' : σ × ℕ}
    (h : Recovered load db visited s s') (heq : ∀ table, visited table ↔ visited' table) :
    Recovered load db visited' s s' := by
  obtain rfl : visited = visited' := funext fun table => propext (heq table)
  exact h

theorem loadOperlogFromDb_recovered {date : ℤ} {s s' : σ × ℕ}
    (h : loadOperlogFromDb load localtime db date s = some s') :
    Recovered load db (· = operlogTable (localtime date)) s s' := by
  unfold loadOperlogFromDb at h
  cases hfind : db.find (operlogTable (localtime date)) with
  | none =>
    rw [hfind] at h
    cases h
    refine ⟨⟨[], .nil s, by simp⟩, ?_⟩
    rintro _ row rfl ⟨t, ht, -⟩
    rw [ht] at hfind
    cases hfind
  | some t =>
    rw [hfind] at h
    dsimp only at h
    unfold loadOperlog at h
    rw [Table.scan_eq, Option.map_map] at h
    obtain ⟨s₁, hfold, rfl⟩ := Option.map_eq_some_iff.mp h
    have happ := applied_foldlM hfold
    refine ⟨⟨_, happ, fun row hrow => ⟨_, rfl, t, hfind, (List.mem_filter.mp hrow).1⟩⟩, ?_⟩
    rintro _ row rfl ⟨t', ht', hrow⟩
    obtain rfl : t = t' := Option.some.inj (hfind.symm.trans ht')
    change row.1 ≤ s₁.2
    by_cases hle : row.1 ≤ s.2
    · exact hle.trans (by rw [happ.last]; exact Nat.le_add_right _ _)
    · have hmem : row.1 ∈ (t.above s.2).map Prod.fst :=
        List.mem_map_of_mem (List.mem_filter.mpr ⟨hrow, by simpa using hle⟩)
      rw [happ.ids, List.mem_range'_1] at hmem
      rw [happ.last]
      omega

/-- The days at which the loop of `init_from_db` arrives. -/
def Arrives (begin stop date : ℤ) : Prop := ∃ k : ℕ, date = begin + 86400 * k ∧ date < stop

theorem arrives_iff {begin stop date : ℤ} (h : begin < stop) :
    Arrives begin stop date ↔ date = begin ∨ Arrives (begin + 86400) stop date := by
  constructor
  · rintro ⟨k, rfl, hk⟩
    cases k with
    | zero => exact Or.inl (by simp)
    | succ k => exact Or.inr ⟨k, by push_cast; ring, hk⟩
  · rintro (rfl | ⟨k, rfl, hk⟩)
    · exact ⟨0, by simp, h⟩
    · exact ⟨k + 1, by push_cast; ring, hk⟩

theorem loadDays_recovered {stop : ℤ} : ∀ {begin : ℤ} {s s' : σ × ℕ},
    loadDays load localtime db begin stop s = some s' →
      Recovered load db (fun table => ∃ date, Arrives begin stop date ∧
        operlogTable (localtime date) = table) s s' := by
  intro begin
  induction hn : (stop - begin).toNat using Nat.strongRecOn generalizing begin with
  | _ n ih =>
    intro s s' h
    rw [loadDays] at h
    split_ifs at h with hlt
    · cases hday : loadOperlogFromDb load localtime db begin s with
      | none => simp [hday] at h
      | some s₁ =>
        rw [hday] at h
        refine ((loadOperlogFromDb_recovered hday).trans (ih _ (by omega) rfl h)).congr fun table =>
          ?_
        constructor
        · rintro (rfl | ⟨date, harr, rfl⟩)
          · exact ⟨begin, (arrives_iff hlt).mpr (Or.inl rfl), rfl⟩
          · exact ⟨date, (arrives_iff hlt).mpr (Or.inr harr), rfl⟩
        · rintro ⟨date, harr, rfl⟩
          rcases (arrives_iff hlt).mp harr with rfl | harr
          · exact Or.inl rfl
          · exact Or.inr ⟨date, harr, rfl⟩
    · cases h
      refine ⟨⟨[], .nil s, by simp⟩, ?_⟩
      rintro table row ⟨date, ⟨k, rfl, hk⟩, rfl⟩
      omega

end Applied

section Init

variable {D : Type} (mpd : Mpd D) (env : ℕ → Engine.Surroundings) (localtime : ℤ → Tm)
  (mktime : Tm → ℤ) (dictAsset : Dict String AssetType) (confs : List (MarketConf D))

/-- The last operation in the slice. -/
def sliceEnd : Option (SliceRow D) → ℕ
  | none => 0
  | some row => row.endOperId

/-- The engine the replay starts with. -/
def sliceEngine : Option (SliceRow D) → Option (Engine D)
  | none => Engine.init mpd dictAsset confs
  | some row =>
    if row.time = 0 then
      (Engine.init mpd dictAsset confs).map
        (Engine.setIds row.slice.endOrderId row.slice.endDealsId)
    else Engine.restore mpd dictAsset confs row.slice

/-- A time whose table is visited. -/
def VisitsDay (last : Option (SliceRow D)) (now date : ℤ) : Prop :=
  match last with
  | none => date = now
  | some row =>
    if row.time = 0 then date = now
    else Arrives row.time (getTodayStart localtime mktime now + 86400) date

variable {mpd env localtime mktime dictAsset confs} {db : Db Json} {last : Option (SliceRow D)}
  {now : ℤ} {s : Engine D × ℕ}

theorem initFromDb_recovered
    (h : initFromDb mpd env localtime mktime dictAsset confs db last now = some s) :
    ∃ e, sliceEngine mpd dictAsset confs last = some e ∧
      Recovered (Engine.load mpd env) db
        (fun table => ∃ date, VisitsDay localtime mktime last now date ∧
          operlogTable (localtime date) = table) (e, sliceEnd last) s := by
  have htoday : ∀ {e : Engine D} {first : ℕ}, loadOperlogFromDb (Engine.load mpd env) localtime db
      now (e, first) = some s → Recovered (Engine.load mpd env) db
        (fun table => ∃ date, date = now ∧ operlogTable (localtime date) = table) (e, first) s :=
    fun h => (loadOperlogFromDb_recovered h).congr fun table => by simp [eq_comm]
  unfold initFromDb at h
  cases last with
  | none =>
    obtain ⟨e, he, h⟩ := Option.bind_eq_some_iff.mp h
    exact ⟨e, he, htoday h⟩
  | some row =>
    dsimp only at h
    unfold sliceEngine VisitsDay
    dsimp only
    by_cases htime : row.time = 0
    · rw [if_pos htime] at h
      simp only [if_pos htime]
      obtain ⟨e, he, h⟩ := Option.bind_eq_some_iff.mp h
      exact ⟨_, by rw [he]; rfl, htoday h⟩
    · rw [if_neg htime] at h
      simp only [if_neg htime]
      obtain ⟨e, he, h⟩ := Option.bind_eq_some_iff.mp h
      exact ⟨e, he, loadDays_recovered h⟩

/-- **A recovery is complete just when it visits the table of the last operation.** -/
theorem initFromDb_complete_iff {e' : Engine D} {id n : ℕ} (hdb : db.Gapless 0 n)
    (h : initFromDb mpd env localtime mktime dictAsset confs db last now = some (e', id)) :
    (∃ (e : Engine D) (rows : List (ℕ × ℚ × Json)), sliceEngine mpd dictAsset confs last = some e ∧
        rows.map Prod.fst = List.range' (sliceEnd last + 1) (n - sliceEnd last) ∧
        (∀ row ∈ rows, ∃ table, db.Stored table row) ∧
        rows.foldlM (Engine.load mpd env) e = some e' ∧ id = n) ↔
      n = sliceEnd last ∨ sliceEnd last < n ∧ ∃ date, VisitsDay localtime mktime last now date ∧
        ∃ row, db.Stored (operlogTable (localtime date)) row ∧ row.1 = n := by
  obtain ⟨e, he, hload⟩ := initFromDb_recovered h
  obtain ⟨rows, happ, hst⟩ := hload.rows
  have hid : id = sliceEnd last + rows.length := happ.last
  constructor
  · rintro ⟨-, -, -, -, -, -, rfl⟩
    rcases List.eq_nil_or_concat' rows with rfl | ⟨rows₀, row, rfl⟩
    · exact Or.inl (by simpa using hid)
    · refine Or.inr ⟨by rw [hid]; simp, ?_⟩
      obtain ⟨table, ⟨date, hvisit, rfl⟩, hrow⟩ := hst row (by simp)
      refine ⟨date, hvisit, row, hrow, ?_⟩
      have hids := congrArg List.getLast? happ.ids
      simp only [List.map_append, List.map_singleton, List.getLast?_concat, List.length_append,
        List.length_singleton, List.range'_1_concat, Option.some.injEq] at hids hid
      omega
  · intro hlast
    -- every stored id up to `id` has been replayed, and `id` does not go past the last one
    have hend : id = n := by
      rcases hlast with rfl | ⟨hlt, date, hvisit, row, hrow, rfl⟩
      · by_contra hne
        have hmem : sliceEnd last + 1 ∈ rows.map Prod.fst := by
          rw [happ.ids, List.mem_range'_1]
          change _ ∧ _ < sliceEnd last + 1 + rows.length
          omega
        obtain ⟨row, hrow, hrow1⟩ := List.mem_map.mp hmem
        obtain ⟨table, -, hstored⟩ := hst row hrow
        have := ((hdb.ids _).mp ⟨table, row, hstored, rfl⟩).2
        omega
      · have hge : row.1 ≤ id := hload.above _ row ⟨date, hvisit, rfl⟩ hrow
        by_contra hne
        have hmem : id ∈ rows.map Prod.fst := by
          rw [happ.ids, List.mem_range'_1]
          change sliceEnd last + 1 ≤ id ∧ id < sliceEnd last + 1 + rows.length
          omega
        obtain ⟨row', hrow', rfl⟩ := List.mem_map.mp hmem
        obtain ⟨table, -, hstored⟩ := hst row' hrow'
        have := ((hdb.ids _).mp ⟨table, row', hstored, rfl⟩).2
        omega
    refine ⟨e, rows, he, ?_, fun row hrow => ?_, happ.fold, hend⟩
    · have hids : rows.map Prod.fst = List.range' (sliceEnd last + 1) rows.length := happ.ids
      rw [hids, show n - sliceEnd last = rows.length by omega]
    · obtain ⟨table, -, hstored⟩ := hst row hrow
      exact ⟨table, hstored⟩

end Init

section Yesterday

/-- Days of 86400 seconds, from the first of January 1970 on. -/
def utcDay (t : ℤ) : Tm := ⟨70, 0, 1 + (t / 86400).toNat⟩

def utcMidnight (t : Tm) : ℤ := 86400 * (t.tmMday - 1)

/-- One operation, on the first day. -/
def yesterdayDb : Db Json :=
  Finmap.insert "operlog_19700101" ⟨[(1, 0, .null)], List.pairwise_singleton _ _⟩ ∅

theorem stored_yesterdayDb {table : String} {row : ℕ × ℚ × Json} :
    yesterdayDb.Stored table row ↔ table = "operlog_19700101" ∧ row = (1, 0, .null) := by
  unfold Db.Stored yesterdayDb
  rw [Dict.find_insert]
  split_ifs with htable <;> simp [htable]

theorem gapless_yesterdayDb : yesterdayDb.Gapless 0 1 where
  ids id := by
    constructor
    · rintro ⟨table, row, hst, rfl⟩
      obtain ⟨-, rfl⟩ := stored_yesterdayDb.mp hst
      exact ⟨by omega, le_rfl⟩
    · rintro ⟨h0, h1⟩
      obtain rfl : id = 1 := by omega
      exact ⟨_, _, stored_yesterdayDb.mpr ⟨rfl, rfl⟩, rfl⟩
  once h h' _ := by
    obtain ⟨rfl, rfl⟩ := stored_yesterdayDb.mp h
    obtain ⟨rfl, rfl⟩ := stored_yesterdayDb.mp h'
    exact ⟨rfl, rfl⟩

/-- A start on the second day, without a slice. -/
def secondDay : Option (Engine ℚ × ℕ) :=
  initFromDb decimal128 (fun _ => ⟨0, 0⟩) utcDay utcMidnight exampleAssets [exampleConf 8]
    yesterdayDb none 86400

theorem secondDay_spec : ∃ e, secondDay = some (e, 0) := by
  have hcheck : secondDay.any (fun p => decide (p.2 = 0)) = true := by
    unfold secondDay initFromDb loadOperlogFromDb
    have hfind : yesterdayDb.find (operlogTable (utcDay 86400)) = none := by decide +kernel
    simp only [hfind]
    decide +kernel
  obtain ⟨⟨e, id⟩, hp, hid⟩ := (Option.any_eq_true _ _).mp hcheck
  obtain rfl : id = 0 := of_decide_eq_true hid
  exact ⟨e, hp⟩

/-- **Without a slice, yesterday's operations are forgotten**, and the start succeeds. -/
theorem yesterday_lost : ¬ ∀ (env : ℕ → Engine.Surroundings) (db : Db Json) (n : ℕ) (now : ℤ)
    (e : Engine ℚ) (id : ℕ), db.Gapless 0 n →
      initFromDb decimal128 env utcDay utcMidnight exampleAssets [exampleConf 8] db none now =
        some (e, id) → id = n := fun hall => by
  obtain ⟨e, he⟩ := secondDay_spec
  exact absurd (hall _ yesterdayDb 1 86400 e 0 gapless_yesterdayDb he) (by omega)

theorem initFromDb_complete_iff_yesterday : ∃ e', secondDay = some (e', 0) ∧
    ((∃ (e : Engine ℚ) (rows : List (ℕ × ℚ × Json)),
        sliceEngine decimal128 exampleAssets [exampleConf 8] none = some e ∧
        rows.map Prod.fst = List.range' (0 + 1) (1 - 0) ∧
        (∀ row ∈ rows, ∃ table, yesterdayDb.Stored table row) ∧
        rows.foldlM (Engine.load decimal128 (fun _ => ⟨0, 0⟩)) e = some e' ∧ 0 = 1) ↔
      1 = 0 ∨ 0 < 1 ∧ ∃ date, date = 86400 ∧
        ∃ row, yesterdayDb.Stored (operlogTable (utcDay date)) row ∧ row.1 = 1) := by
  obtain ⟨e', he⟩ := secondDay_spec
  exact ⟨e', he, initFromDb_complete_iff gapless_yesterdayDb he⟩

end Yesterday

end ViabtcExchange
