import ViabtcExchange.Decimal

/-!
# Klines (`mp_kline.c`)

A bar is made of its first price, updated with each deal, and bars are merged into coarser ones.
`foldDeals` is what the deals of a bar make of it, and `mergeBars` what the queries make of bars
next to each other.

**Theorem (`mergeBars_foldDeals`).** In exact decimals, the bars of blocks of deals merge into the
bar of all of them, empty blocks or not. **Theorem (`foldDeals_eq`).** That bar has the first price,
the last, the greatest, the least, and the totals of the amounts and of their worth.
-/

namespace ViabtcExchange

/-- `open` is a word of Lean. -/
structure Kline (D : Type) where
  opening : D
  close : D
  high : D
  low : D
  volume : D
  deal : D
deriving DecidableEq, Repr

namespace Kline

variable {D : Type} (mpd : Mpd D)

/-- `kline_info_new`. -/
def new (opening : D) : Kline D := ⟨opening, opening, opening, opening, mpd.zero, mpd.zero⟩

/-- `kline_info_update`. -/
def update (info : Kline D) (price amount : D) : Kline D where
  opening := info.opening
  close := price
  high := if mpd.cmp price info.high > 0 then price else info.high
  low := if mpd.cmp price info.low < 0 then price else info.low
  volume := mpd.add info.volume amount
  deal := mpd.add info.deal (mpd.mul price amount)

/-- `kline_info_merge`. -/
def merge (info update : Kline D) : Kline D where
  opening := info.opening
  close := update.close
  high := if mpd.cmp update.high info.high > 0 then update.high else info.high
  low := if mpd.cmp update.low info.low < 0 then update.low else info.low
  volume := mpd.add info.volume update.volume
  deal := mpd.add info.deal update.deal

end Kline

section Bars

variable {D : Type} (mpd : Mpd D)

/-- A bar with one deal more, or the first. -/
def addDeal (bar : Option (Kline D)) (price amount : D) : Kline D :=
  (bar.getD (.new mpd price)).update mpd price amount

/-- The bar of some deals, given by their prices and amounts. -/
def foldDeals (deals : List (D × D)) : Option (Kline D) :=
  deals.foldl (fun bar d => some (addDeal mpd bar d.1 d.2)) none

@[simp] theorem foldDeals_nil : foldDeals mpd [] = none := rfl

theorem foldDeals_snoc (deals : List (D × D)) (d : D × D) :
    foldDeals mpd (deals ++ [d]) = some (addDeal mpd (foldDeals mpd deals) d.1 d.2) := by
  unfold foldDeals
  rw [List.foldl_append]
  rfl

/-- How a query merges bars: `kinfo` is made of the first. -/
def mergeBars (bars : List (Kline D)) : Option (Kline D) :=
  bars.foldl (fun kinfo item =>
    some ((kinfo.getD (.new mpd item.opening)).merge mpd item)) none

end Bars

/-! ## Exact decimals -/

section Exact

/-- A bar, said in one go: `d` is its first deal. -/
def summary (d : ℚ × ℚ) (deals : List (ℚ × ℚ)) : Kline ℚ where
  opening := d.1
  close := ((d :: deals).getLast (List.cons_ne_nil _ _)).1
  high := (deals.map Prod.fst).foldl max d.1
  low := (deals.map Prod.fst).foldl min d.1
  volume := ((d :: deals).map Prod.snd).sum
  deal := ((d :: deals).map fun d => d.1 * d.2).sum

theorem update_exact (info : Kline ℚ) (price amount : ℚ) : info.update exactDecimal price amount =
    ⟨info.opening, price, max info.high price, min info.low price, info.volume + amount,
      info.deal + price * amount⟩ := by
  have hhigh : (if exactDecimal.cmp price info.high > 0 then price else info.high) =
      max info.high price := by
    rw [max_def_lt]
    exact if_congr (ratMpd_cmp_pos ..) rfl rfl
  have hlow : (if exactDecimal.cmp price info.low < 0 then price else info.low) =
      min info.low price := by
    rw [min_comm, min_def_lt]
    exact if_congr (ratMpd_cmp_lt ..) rfl rfl
  unfold Kline.update
  rw [hhigh, hlow]
  rfl

theorem merge_exact (info update : Kline ℚ) : info.merge exactDecimal update =
    ⟨info.opening, update.close, max info.high update.high, min info.low update.low,
      info.volume + update.volume, info.deal + update.deal⟩ := by
  have hhigh : (if exactDecimal.cmp update.high info.high > 0 then update.high else info.high) =
      max info.high update.high := by
    rw [max_def_lt]
    exact if_congr (ratMpd_cmp_pos ..) rfl rfl
  have hlow : (if exactDecimal.cmp update.low info.low < 0 then update.low else info.low) =
      min info.low update.low := by
    rw [min_comm, min_def_lt]
    exact if_congr (ratMpd_cmp_lt ..) rfl rfl
  unfold Kline.merge
  rw [hhigh, hlow]
  rfl

/-- **A bar is the summary of its deals.** -/
theorem foldDeals_eq (d : ℚ × ℚ) (deals : List (ℚ × ℚ)) :
    foldDeals exactDecimal (d :: deals) = some (summary d deals) := by
  induction deals using List.reverseRecOn with
  | nil =>
    have hfirst : foldDeals exactDecimal [d] = some ((Kline.new exactDecimal d.1).update
        exactDecimal d.1 d.2) := rfl
    rw [hfirst, update_exact]
    simp [Kline.new, summary]
  | append_singleton deals d' ih =>
    rw [← List.cons_append, foldDeals_snoc, ih, addDeal, Option.getD_some, update_exact]
    simp [summary, List.foldl_append, add_assoc]

/-- Summaries of neighbours merge. -/
theorem merge_summary (d d' : ℚ × ℚ) (deals deals' : List (ℚ × ℚ)) :
    (summary d deals).merge exactDecimal (summary d' deals') =
      summary d (deals ++ d' :: deals') := by
  have hmax : ∀ (a : ℚ) (l : List ℚ), max a (l.foldl max d'.1) = l.foldl max (max a d'.1) :=
    fun a l => (@List.foldl_assoc _ max _ l a d'.1).symm
  have hmin : ∀ (a : ℚ) (l : List ℚ), min a (l.foldl min d'.1) = l.foldl min (min a d'.1) :=
    fun a l => (@List.foldl_assoc _ min _ l a d'.1).symm
  rw [merge_exact]
  simp [summary, List.foldl_append, hmax, hmin, add_assoc]

/-- A bar merged into a new one of its first price is itself. -/
theorem merge_new (d : ℚ × ℚ) (deals : List (ℚ × ℚ)) :
    (Kline.new exactDecimal (summary d deals).opening).merge exactDecimal (summary d deals) =
      summary d deals := by
  have hmax : max d.1 ((deals.map Prod.fst).foldl max d.1) =
      (deals.map Prod.fst).foldl max d.1 := by
    rw [← @List.foldl_assoc _ max, max_self]
  have hmin : min d.1 ((deals.map Prod.fst).foldl min d.1) =
      (deals.map Prod.fst).foldl min d.1 := by
    rw [← @List.foldl_assoc _ min, min_self]
  rw [merge_exact]
  simp [Kline.new, summary, hmax, hmin]

/-- **Bars of blocks merge into the bar of all their deals.** -/
theorem mergeBars_foldDeals (blocks : List (List (ℚ × ℚ))) :
    mergeBars exactDecimal (blocks.filterMap (foldDeals exactDecimal)) =
      foldDeals exactDecimal blocks.flatten := by
  induction blocks using List.reverseRecOn with
  | nil => rfl
  | append_singleton blocks block ih =>
    rw [List.filterMap_append, List.flatten_append, List.flatten_singleton]
    cases block with
    | nil =>
      have hblock : [([] : List (ℚ × ℚ))].filterMap (foldDeals exactDecimal) = [] := rfl
      rw [hblock, List.append_nil, List.append_nil, ih]
    | cons d' deals' =>
      have hblock : [d' :: deals'].filterMap (foldDeals exactDecimal) = [summary d' deals'] := by
        simp [foldDeals_eq]
      unfold mergeBars at ih ⊢
      rw [hblock, List.foldl_append, ih, List.foldl_cons, List.foldl_nil]
      cases hflat : blocks.flatten with
      | nil => rw [foldDeals_nil, Option.getD_none, List.nil_append, foldDeals_eq, merge_new]
      | cons d deals =>
        rw [foldDeals_eq, Option.getD_some, List.cons_append, foldDeals_eq, merge_summary]

end Exact

end ViabtcExchange
