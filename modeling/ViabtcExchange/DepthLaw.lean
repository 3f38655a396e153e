import ViabtcExchange.Depth

/-!
# The law of a depth diff (`aw_depth.c`)

`get_list_diff` makes one side of a depth out of another for a reader who keeps the best `limit`
prices, it says nothing that such a reader could do without, and it is `NULL` when there is nothing
to say (`getListDiff_law`). The numbers of a unit are those that `decimal` reads, in any context:
two prices that agree in the digits of the context are one price to it (`longDigits_same`).
-/

namespace ViabtcExchange

section Law

variable {round : ℚ → ℚ} {side : ℤ} {limit : ℕ} {list1 list2 : Option Json}
  (hside : side = 1 ∨ side = -1)
  (h1 : GoodSide (ratMpd round) side limit list1) (h2 : GoodSide (ratMpd round) side limit list2)

include hside h1 h2

/-- Without one of its units the diff does not make one side of the other. -/
theorem applySide_eraseIdx_ne {units : List (DiffUnit ℚ)} {i : ℕ}
    (hdiff : getListDiff (ratMpd round) list1 list2 limit side = some units)
    (hi : i < units.length) :
    applySide (ratMpd round) side limit (Change.ofEntries (sideEntries (ratMpd round) list1))
        (some (units.eraseIdx i)) ≠ Change.ofEntries (sideEntries (ratMpd round) list2) := by
  have horder : IsStrictTotalOrder ℚ (before side) := before_order (by omega)
  obtain ⟨full, hfull, diff, heq, hchange⟩ := getListDiff_eq hside h1 h2
  obtain rfl : diff = units := by
    rw [hdiff] at heq
    exact (Option.filter_eq_some_iff.mp heq.symm).1 |> Option.some.inj
  have hbest := @Change.best_applyAll_ne _ _ _ (before side) _ _ _ _ _ full limit
    h1.sorted h2.sorted (h2.length ▸ h2.size) hfull
  generalize Change.diff (before side) full (sideEntries (ratMpd round) list1)
    (sideEntries (ratMpd round) list2) = changes at hchange hbest
  have hi' : i < changes.length := by
    have hlength := congrArg List.length hchange
    rw [List.length_map, List.length_map] at hlength
    omega
  have herase : (diff.eraseIdx i).map (readChange (ratMpd round)) =
      (changes.eraseIdx i).map some := by
    rw [← List.eraseIdx_map, hchange, List.eraseIdx_map]
  have hsplit : changes = changes.take i ++ changes[i] :: changes.drop (i + 1) := by simp
  unfold applySide
  rw [Option.getD_some, filterMap_readChange herase, List.eraseIdx_eq_take_drop_succ]
  exact hbest hsplit

theorem getListDiff_eq_none_iff :
    getListDiff (ratMpd round) list1 list2 limit side = none ↔
      sideEntries (ratMpd round) list1 = sideEntries (ratMpd round) list2 := by
  obtain ⟨full, hfull, diff, heq, hchange⟩ := getListDiff_eq hside h1 h2
  have hempty : getListDiff (ratMpd round) list1 list2 limit side = none ↔ diff = [] := by
    rw [heq]
    cases diff <;> simp
  have hchanges : diff = [] ↔ Change.diff (before side) full (sideEntries (ratMpd round) list1)
      (sideEntries (ratMpd round) list2) = [] := by
    rw [← List.map_eq_nil_iff (f := readChange (ratMpd round)), hchange, List.map_eq_nil_iff]
  rw [hempty, hchanges]
  constructor
  · refine Change.eq_of_diff_nil fun hisFull => ?_
    exact (h1.length ▸ h1.size).trans (hfull.mp hisFull)
  · intro hsame
    rw [hsame, Change.diff_self]

/-- **The law of a diff.** For a reader who keeps the best `limit` prices the diff of two sides
makes the first the second, none of its units can be left out, and there is none exactly when the
sides say the same. -/
theorem getListDiff_law :
    let diff := getListDiff (ratMpd round) list1 list2 limit side
    let after := applySide (ratMpd round) side limit
      (Change.ofEntries (sideEntries (ratMpd round) list1))
    after diff = Change.ofEntries (sideEntries (ratMpd round) list2) ∧
    (∀ units, diff = some units → ∀ i < units.length,
      after (some (units.eraseIdx i)) ≠ Change.ofEntries (sideEntries (ratMpd round) list2)) ∧
    (diff = none ↔ sideEntries (ratMpd round) list1 = sideEntries (ratMpd round) list2) :=
  ⟨applySide_getListDiff hside h1 h2,
    fun _ hdiff _ hi => applySide_eraseIdx_ne hside h1 h2 hdiff hi,
    getListDiff_eq_none_iff hside h1 h2⟩

end Law

/-! ## Two sides, and two that differ behind the last digit -/

/-- One side of a depth. -/
def depthSide (units : List (String × String)) : Option Json :=
  some (.array (units.map fun (price, amount) => .array [.string price, .string amount]))

def asksBefore : Option Json := depthSide [("1", "5"), ("2", "5")]

def asksAfter : Option Json := depthSide [("1.0", "6"), ("3", "1")]

/-- One price has more, one is gone, and one is new. -/
theorem asksAfter_law :
    applySide decimal128 1 2 (Change.ofEntries (sideEntries decimal128 asksBefore))
        (getListDiff decimal128 asksBefore asksAfter 2 1) =
      Change.ofEntries (sideEntries decimal128 asksAfter) :=
  (getListDiff_law (Or.inl rfl)
    ⟨⟨_, rfl⟩, by decide +kernel, by decide +kernel, by decide +kernel, by decide +kernel⟩
    ⟨⟨_, rfl⟩, by decide +kernel, by decide +kernel, by decide +kernel, by decide +kernel⟩).1

def longAsk : Option Json := depthSide [("1.000000000000000000000000000000000001", "5")]

def longerAsk : Option Json := depthSide [("1.000000000000000000000000000000000002", "5")]

/-- Two asks whose prices differ in the 37th digit: there is no diff. -/
theorem longDigits_same :
    GoodSide exactDecimal 1 1 longAsk ∧ GoodSide exactDecimal 1 1 longerAsk ∧
      sideEntries exactDecimal longAsk ≠ sideEntries exactDecimal longerAsk ∧
      getListDiff decimal128 longAsk longerAsk 1 1 = none := by
  refine ⟨⟨⟨_, rfl⟩, by decide +kernel, by decide +kernel, by decide +kernel, by decide +kernel⟩,
    ⟨⟨_, rfl⟩, by decide +kernel, by decide +kernel, by decide +kernel, by decide +kernel⟩,
    by decide +kernel, ?_⟩
  refine (getListDiff_eq_none_iff (Or.inl rfl)
    ⟨⟨_, rfl⟩, by decide +kernel, by decide +kernel, by decide +kernel, by decide +kernel⟩
    ⟨⟨_, rfl⟩, by decide +kernel, by decide +kernel, by decide +kernel, by decide +kernel⟩).mpr ?_
  decide +kernel

end ViabtcExchange
