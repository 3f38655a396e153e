import ViabtcExchange.Lib.Numerals
import ViabtcExchange.HistorySql

/-!
# Numbers as texts (`ut_decimal.c`)

Numbers leave the servers as what `mpd_to_sci` writes, without the zeros at the end behind the
point: `rstripzero`. It takes a text with an `e` as it is. Every caller asks `mpd_to_sci` for the
small letter, by its format 0; of a text with an `E` zeros of the exponent would be cut off.

`mpd_to_sci` is a parameter that writes numerals; `FiniteDecimal.scientific` is one.

**Theorem (`decimal_mpdText`).** Whatever number it writes, `decimal` reads the text without the
zeros as it reads the text with them.
-/

namespace ViabtcExchange

/-! ## Reading numerals -/

theorem readNat_digits {cs : List Char} (h : ∀ c ∈ cs, c.isDigit = true) :
    readNat cs = some (digitsNat cs) := by
  rw [readNat, if_pos (List.all_eq_true.mpr h)]
  rfl

theorem readSign_digit {c : Char} (h : c.isDigit = true) (cs : List Char) :
    readSign (c :: cs) = (false, c :: cs) := by
  unfold readSign
  split
  · rename_i heq
    obtain ⟨rfl, -⟩ := List.cons.inj heq
    exact absurd h (by decide)
  · rename_i heq
    obtain ⟨rfl, -⟩ := List.cons.inj heq
    exact absurd h (by decide)
  · rfl

theorem readSign_signChars (neg : Bool) {cs : List Char} (hne : cs ≠ [])
    (h : ∀ c ∈ cs, c.isDigit = true) (ds : List Char) :
    readSign (Numeral.signChars neg ++ (cs ++ ds)) = (neg, cs ++ ds) := by
  cases neg with
  | true => rfl
  | false =>
    obtain ⟨c, cs, rfl⟩ := List.exists_cons_of_ne_nil hne
    exact readSign_digit (h c List.mem_cons_self) _

theorem ne_of_isDigit {c d : Char} (hc : c.isDigit = true) (hd : d.isDigit = false) : c ≠ d := by
  rintro rfl
  rw [hc] at hd
  cases hd

theorem readCoefficient_point {whole frac : List Char} (hne : whole ≠ [])
    (hwhole : ∀ c ∈ whole, c.isDigit = true) (hfrac : ∀ c ∈ frac, c.isDigit = true) :
    readCoefficient (whole ++ Numeral.pointChars frac) =
      some (digitsNat whole + digitsNat frac / 10 ^ frac.length : ℚ) := by
  have hpoint : ∀ c ∈ whole, (decide (c ≠ '.')) = true := fun c hc =>
    decide_eq_true (ne_of_isDigit (hwhole c hc) rfl)
  have htake : (Numeral.pointChars frac).takeWhile (· ≠ '.') = [] := by
    unfold Numeral.pointChars
    split_ifs <;> rfl
  have hdrop : ((Numeral.pointChars frac).dropWhile (· ≠ '.')).drop 1 = frac := by
    unfold Numeral.pointChars
    split_ifs with h
    · exact h.symm
    · rfl
  simp only [readCoefficient, List.takeWhile_append_of_pos hpoint,
    List.dropWhile_append_of_pos hpoint, htake, hdrop, List.append_nil, hne, false_and, if_false,
    readNat_digits hwhole, readNat_digits hfrac]
  rfl

theorem readExponent_exponentChars {e : Option (Bool × List Char)} (hne : ∀ x ∈ e, x.2 ≠ [])
    (h : ∀ x ∈ e, ∀ c ∈ x.2, c.isDigit = true) :
    readExponent (Numeral.exponentChars e) = some (Numeral.power e) := by
  cases e with
  | none => rfl
  | some e =>
    obtain ⟨neg, ds⟩ := e
    have hsign : readSign ((if neg then '-' else '+') :: ds) = (neg, ds) := by cases neg <;> rfl
    simp only [Numeral.exponentChars, readExponent, hsign, hne _ rfl, if_false,
      readNat_digits (h _ rfl)]
    rfl

namespace Numeral

theorem mem_signChars {neg : Bool} {c : Char} (h : c ∈ signChars neg) : c = '-' := by
  unfold signChars at h
  split_ifs at h
  · exact List.mem_singleton.mp h
  · cases h

theorem mem_pointChars {frac : List Char} {c : Char} (h : c ∈ pointChars frac) :
    c = '.' ∨ c ∈ frac := by
  unfold pointChars at h
  split_ifs at h
  · cases h
  · exact List.mem_cons.mp h

/-- Before the exponent there are digits, and perhaps a point. -/
theorem mem_coefficient {x : Numeral} {c : Char} (h : c ∈ x.whole ++ pointChars x.frac) :
    c = '.' ∨ c.isDigit = true := by
  rcases List.mem_append.mp h with h | h
  · exact Or.inr (x.whole_digits c h)
  · exact (mem_pointChars h).imp_right (x.frac_digits c)

end Numeral

/-- **A numeral is read as its value.** -/
theorem readDecimal_text (x : Numeral) : readDecimal x.text = some x.value := by
  have hplain : ∀ c ∈ x.whole ++ Numeral.pointChars x.frac,
      (!(c = 'e' || c = 'E' : Bool)) = true := by
    intro c hc
    rcases Numeral.mem_coefficient hc with rfl | hdigit
    · rfl
    · simp [ne_of_isDigit hdigit (show ('e' : Char).isDigit = false from rfl),
        ne_of_isDigit hdigit (show ('E' : Char).isDigit = false from rfl)]
  have htake : (Numeral.exponentChars x.exponent).takeWhile
      (fun c => !(c = 'e' || c = 'E' : Bool)) = [] := by
    rcases x.exponent with _ | ⟨neg, ds⟩ <;> rfl
  have hdrop : (Numeral.exponentChars x.exponent).dropWhile
      (fun c => !(c = 'e' || c = 'E' : Bool)) = Numeral.exponentChars x.exponent := by
    rcases x.exponent with _ | ⟨neg, ds⟩ <;> rfl
  have hsign : readSign x.chars =
      (x.neg, x.whole ++ Numeral.pointChars x.frac ++ Numeral.exponentChars x.exponent) := by
    rw [Numeral.chars, List.append_assoc x.whole]
    exact readSign_signChars x.neg x.whole_ne x.whole_digits _
  simp only [readDecimal, Numeral.text, String.toList_ofList, hsign,
    List.takeWhile_append_of_pos hplain, List.dropWhile_append_of_pos hplain, htake, hdrop,
    List.append_nil, readCoefficient_point x.whole_ne x.whole_digits x.frac_digits,
    readExponent_exponentChars x.exponent_ne x.exponent_digits]
  rfl

/-! ## Stripping zeros -/

/-- `rstripzero`. Where there is a point, it stops the loop at the latest. -/
def rstripzero (str : String) : String :=
  let cs := str.toList
  if 'e' ∈ cs then str
  else if '.' ∈ cs then
    let kept := cs.rdropWhile (· = '0')
    String.ofList (if kept.getLast? = some '.' then kept.dropLast else kept)
  else str

theorem rdropWhile_append_cons {p : Char → Bool} {c : Char} (hc : p c = false)
    (cs ds : List Char) : (cs ++ c :: ds).rdropWhile p = cs ++ c :: ds.rdropWhile p := by
  induction ds using List.reverseRecOn with
  | nil =>
    rw [List.rdropWhile_nil]
    exact List.rdropWhile_concat_neg p cs c (by rw [hc]; exact Bool.false_ne_true)
  | append_singleton ds d ih =>
    rw [← List.cons_append, ← List.append_assoc, List.rdropWhile_concat, List.rdropWhile_concat]
    split_ifs
    · exact ih
    · rw [List.append_assoc, List.cons_append]

namespace Numeral

/-- Neither sign nor digit nor point. -/
theorem notMem_chars {x : Numeral} {c : Char} (hexp : x.exponent = none)
    (hdigit : c.isDigit = false) (hminus : c ≠ '-') (hpoint : c = '.' → x.frac = []) :
    c ∉ x.chars := by
  rw [chars, hexp, exponentChars, List.append_nil]
  intro h
  rcases List.mem_append.mp h with h | h
  · exact hminus (mem_signChars h)
  · rcases mem_coefficient h with rfl | h'
    · rw [hpoint rfl, pointChars, if_pos rfl, List.append_nil] at h
      exact ne_of_isDigit (x.whole_digits _ h) hdigit rfl
    · exact ne_of_isDigit h' hdigit rfl

theorem chars_of_none {x : Numeral} (hexp : x.exponent = none) :
    x.chars = signChars x.neg ++ x.whole ++ pointChars x.frac := by
  rw [chars, hexp, exponentChars, List.append_nil, List.append_assoc]

end Numeral

/-- What is left of digits behind a point, and of the point. -/
theorem kept_point {body frac : List Char} (h : ∀ c ∈ frac, c.isDigit = true) :
    let kept := body ++ '.' :: frac
    (if kept.getLast? = some '.' then kept.dropLast else kept) =
      body ++ Numeral.pointChars frac := by
  intro kept
  cases frac using List.reverseRecOn with
  | nil =>
    have hlast : kept.getLast? = some '.' := List.getLast?_concat
    rw [if_pos hlast]
    show (body ++ ['.']).dropLast = _
    rw [List.dropLast_concat]
    exact (List.append_nil body).symm
  | append_singleton ds d =>
    have hlast : kept.getLast? = some d := by
      show (body ++ '.' :: (ds ++ [d])).getLast? = _
      rw [← List.cons_append, ← List.append_assoc, List.getLast?_concat]
    have hd : d ≠ '.' := ne_of_isDigit (h d (by simp)) rfl
    rw [hlast, if_neg (by simpa using hd), Numeral.pointChars, if_neg (by simp)]

/-- **Stripping zeros from a numeral** leaves it alone if it has an exponent, and trims it
otherwise. -/
theorem rstripzero_text (x : Numeral) :
    rstripzero x.text = if x.exponent = none then x.trim.text else x.text := by
  have hlist : x.text.toList = x.chars := String.toList_ofList
  cases hexp : x.exponent with
  | some e =>
    have hmem : 'e' ∈ x.text.toList := by
      rw [hlist, Numeral.chars, hexp]
      simp [Numeral.exponentChars]
    rw [rstripzero, if_pos hmem, if_neg (by simp)]
  | none =>
    have hchars := Numeral.chars_of_none hexp
    have he : 'e' ∉ x.text.toList := by
      rw [hlist]
      exact Numeral.notMem_chars hexp rfl (by decide) fun h => absurd h (by decide)
    rw [rstripzero, if_neg he, if_pos rfl]
    have htrim : x.trim.text = String.ofList (Numeral.signChars x.neg ++ x.whole ++
        Numeral.pointChars (x.frac.rdropWhile (· = '0'))) :=
      congrArg String.ofList (Numeral.chars_of_none (x := x.trim) hexp)
    by_cases hfrac : x.frac = []
    · have hpoint : '.' ∉ x.text.toList := by
        rw [hlist]
        exact Numeral.notMem_chars hexp rfl (by decide) fun _ => hfrac
      rw [if_neg hpoint, htrim, hfrac, List.rdropWhile_nil, ← hfrac, ← hchars, Numeral.text]
    · have hdot : x.text.toList = Numeral.signChars x.neg ++ x.whole ++ '.' :: x.frac := by
        rw [hlist, hchars, Numeral.pointChars, if_neg hfrac]
      rw [if_pos (by rw [hdot]; simp), hdot, rdropWhile_append_cons (by decide), htrim]
      exact congrArg String.ofList (kept_point x.trim.frac_digits)

/-- With a capital letter, zeros of the exponent would go. -/
example : rstripzero "1.5E+10" = "1.5E+1" := by decide

theorem readDecimal_rstripzero (x : Numeral) :
    readDecimal (rstripzero x.text) = readDecimal x.text := by
  rw [rstripzero_text]
  split_ifs
  · rw [readDecimal_text, readDecimal_text, x.value_trim]
  · rfl

/-! ## Numbers in JSON -/

section Mpd

variable (toSci : FiniteDecimal → Numeral)

/-- `rstripzero(mpd_to_sci(value, 0))`. -/
def mpdText (value : FiniteDecimal) : String := rstripzero (toSci value).text

/-- `json_object_set_new`: replace the entry, or add one at the end. -/
def jsonObjectSetNew (obj : List (String × Json)) (key : String) (value : Json) :
    List (String × Json) :=
  if obj.any fun kv => kv.1 = key then
    obj.map fun kv => if kv.1 = key then (key, value) else kv
  else obj ++ [(key, value)]

def jsonObjectSetNewMpd (obj : List (String × Json)) (key : String) (value : FiniteDecimal) :
    List (String × Json) :=
  jsonObjectSetNew obj key (.string (mpdText toSci value))

def jsonArrayAppendNewMpd (obj : List Json) (value : FiniteDecimal) : List Json :=
  obj ++ [.string (mpdText toSci value)]

theorem lookup_jsonObjectSetNew (obj : List (String × Json)) (key : String) (value : Json) :
    (jsonObjectSetNew obj key value).lookup key = some value := by
  induction obj with
  | nil => simp [jsonObjectSetNew]
  | cons kv obj ih =>
    obtain ⟨k, v⟩ := kv
    by_cases hk : k = key
    · simp [jsonObjectSetNew, hk]
    · have hne : (key == k) = false := beq_eq_false_iff_ne.mpr (Ne.symm hk)
      unfold jsonObjectSetNew at ih ⊢
      simp only [List.any_cons, hk, decide_false, Bool.false_or, List.map_cons, if_false]
      split_ifs at ih ⊢
      · rw [List.lookup_cons, hne]
        exact ih
      · rw [List.cons_append, List.lookup_cons, hne]
        exact ih

/-- **The zeros do not count.** -/
theorem decimal_mpdText (d : FiniteDecimal) :
    decimal128.decimal (mpdText toSci d) 0 = decimal128.setString (toSci d).text := by
  have hread := readDecimal_rstripzero (toSci d)
  simp only [Mpd.decimal, Mpd.cut, mpdText, ratMpd, hread, if_true, Option.map_map]
  rfl

variable {toSci} in
/-- Without a limit to the digits the number itself is found again. -/
theorem decimal_exact (htoSci : ∀ d, (toSci d).value = d.value) (d : FiniteDecimal) :
    exactDecimal.decimal (mpdText toSci d) 0 = some d.value := by
  have hread := (readDecimal_rstripzero (toSci d)).trans (readDecimal_text _)
  simp only [Mpd.decimal, Mpd.cut, mpdText, ratMpd, hread, htoSci, if_true, Option.map_some, id]

/-- `mpd_set_string` finds the number again that `mpd_to_sci` wrote, if it has no more digits than
the context. -/
def SciInverse : Prop :=
  ∀ d : FiniteDecimal, d.digits.length ≤ 34 → decimal128.setString (toSci d).text = some d.value

variable {toSci} in
theorem SciInverse.decimal (h : SciInverse toSci) {d : FiniteDecimal} (hd : d.digits.length ≤ 34) :
    decimal128.decimal (mpdText toSci d) 0 = some d.value := by
  rw [decimal_mpdText]
  exact h d hd

theorem isSci_chars (x : Numeral) : x.chars.all isSci = true := by
  have hdigit : ∀ {c : Char}, c.isDigit = true → isSci c = true := fun hc => by
    simp [isSci, Char.isAlphanum, hc]
  refine List.all_eq_true.mpr fun c hc => ?_
  unfold Numeral.chars at hc
  rcases List.mem_append.mp hc with hc | hc
  · rw [Numeral.mem_signChars hc]
    rfl
  · rcases List.mem_append.mp hc with hc | hc
    · rcases Numeral.mem_coefficient hc with rfl | hc
      · rfl
      · exact hdigit hc
    · cases hexp : x.exponent with
      | none =>
        rw [hexp] at hc
        cases hc
      | some e =>
        obtain ⟨neg, ds⟩ := e
        rw [hexp] at hc
        rcases List.mem_cons.mp hc with rfl | hc
        · rfl
        · rcases List.mem_cons.mp hc with rfl | hc
          · cases neg <;> rfl
          · exact hdigit (x.exponent_digits _ hexp c hc)

theorem isSci_mpdText (d : FiniteDecimal) : (mpdText toSci d).toList.all isSci = true := by
  rw [mpdText, rstripzero_text]
  split_ifs
  all_goals
    rw [Numeral.text, String.toList_ofList]
    exact isSci_chars _

/-- What is documented of `mpd_to_sci` is such a text. -/
theorem sciInverse_scientific : SciInverse FiniteDecimal.scientific := by
  intro d hd
  show (readDecimal d.scientific.text).map (roundDown 34) = some d.value
  rw [readDecimal_text, Option.map_some, d.value_scientific, FiniteDecimal.roundDown_value hd]

end Mpd

end ViabtcExchange
