import ViabtcExchange.NumberTexts
import ViabtcExchange.JsonDump
import ViabtcExchange.KlineFlush

/-!
# Bars as texts (`mp_kline.c`)

In Redis a bar is an array of six strings. `kline_from_str` also takes one of five, as they were
before the turnover was kept; everything else it refuses, and `load_market_kline` passes over.

jansson is a parameter, held to load the arrays of strings that it dumped.

**Theorem (`loadKlineTexts_stores`).** What `load_market_kline` makes of the texts that the flushes
wrote is what it makes of the values of the bars, in whatever order Redis lists them.
-/

namespace ViabtcExchange

namespace Kline

variable {D E : Type}

def map (f : D → E) (info : Kline D) : Kline E where
  opening := f info.opening
  close := f info.close
  high := f info.high
  low := f info.low
  volume := f info.volume
  deal := f info.deal

/-- In the order in which they are written. -/
def fields (info : Kline D) : List D :=
  [info.opening, info.close, info.high, info.low, info.volume, info.deal]

end Kline

/-! ## Texts of bars -/

/-- `json_dumps(obj, 0)` and `json_loadb(str, strlen(str), 0, NULL)`. -/
structure Jansson where
  dumps : Json → String
  loadb : String → Option Json

/-- Arrays of strings of letters, digits, points and signs are loaded as they were dumped. -/
def Jansson.RoundTrips (jansson : Jansson) : Prop :=
  ∀ texts : List String, (∀ s ∈ texts, s.toList.all isSci = true) →
    jansson.loadb (jansson.dumps (.array (texts.map .string))) = some (.array (texts.map .string))

section Texts

variable {D : Type}

/-- `kline_to_str`. -/
def klineToStr (toSci : FiniteDecimal → Numeral) (jansson : Jansson)
    (info : Kline FiniteDecimal) : String :=
  let obj := jsonArrayAppendNewMpd toSci [] info.opening
  let obj := jsonArrayAppendNewMpd toSci obj info.close
  let obj := jsonArrayAppendNewMpd toSci obj info.high
  let obj := jsonArrayAppendNewMpd toSci obj info.low
  let obj := jsonArrayAppendNewMpd toSci obj info.volume
  let obj := jsonArrayAppendNewMpd toSci obj info.deal
  jansson.dumps (.array obj)

/-- `kline_from_str`. -/
def klineFromStr (mpd : Mpd D) (jansson : Jansson) (str : String) : Option (Kline D) :=
  match jansson.loadb str with
  | some (.array obj) => do
    guard (5 ≤ obj.length)
    let opening ← mpd.decimal (← Json.stringValue obj[(0 : ℕ)]?) 0
    let close ← mpd.decimal (← Json.stringValue obj[(1 : ℕ)]?) 0
    let high ← mpd.decimal (← Json.stringValue obj[(2 : ℕ)]?) 0
    let low ← mpd.decimal (← Json.stringValue obj[(3 : ℕ)]?) 0
    let volume ← mpd.decimal (← Json.stringValue obj[(4 : ℕ)]?) 0
    let deal ←
      if 6 ≤ obj.length then
        (Json.stringValue obj[(5 : ℕ)]?).bind fun deal => mpd.decimal deal 0
      else some mpd.zero
    return ⟨opening, close, high, low, volume, deal⟩
  | _ => none

/-- A bar of numbers with no more digits than the context has. -/
def Kline.Fits (info : Kline FiniteDecimal) : Prop := ∀ d ∈ info.fields, d.digits.length ≤ 34

variable {toSci : FiniteDecimal → Numeral} {jansson : Jansson}

theorem klineToStr_eq (info : Kline FiniteDecimal) : klineToStr toSci jansson info =
    jansson.dumps (.array ((info.fields.map (mpdText toSci)).map .string)) := rfl

/-- **A bar is read as it was written.** -/
theorem klineFromStr_klineToStr (hsci : SciInverse toSci) (hjson : jansson.RoundTrips)
    {info : Kline FiniteDecimal} (h : info.Fits) :
    klineFromStr decimal128 jansson (klineToStr toSci jansson info) =
      some (info.map FiniteDecimal.value) := by
  have hload := hjson (info.fields.map (mpdText toSci)) (by
    intro s hs
    obtain ⟨d, -, rfl⟩ := List.mem_map.mp hs
    exact isSci_mpdText toSci d)
  have hdecimal : ∀ d ∈ info.fields, decimal128.decimal (mpdText toSci d) 0 = some d.value :=
    fun d hd => hsci.decimal (h d hd)
  simp only [Kline.fields, List.forall_mem_cons] at hdecimal
  obtain ⟨hopening, hclose, hhigh, hlow, hvolume, hdeal, -⟩ := hdecimal
  rw [klineToStr_eq, klineFromStr, hload]
  simp only [Kline.fields, List.map_cons, List.map_nil, List.length_cons, List.length_nil,
    List.getElem?_cons_zero, List.getElem?_cons_succ, Json.stringValue, Option.bind_eq_bind,
    Option.bind_some, hopening, hclose, hhigh, hlow, hvolume, hdeal]
  rfl

end Texts

/-! ## Redis -/

section Load

variable {D : Type}

/-- The answer to `HGETALL`: the fields of a hash with their values, in any order. -/
structure HgetallReply {V : Type} (hash : Dict ℤ V) (elements : List (ℤ × V)) : Prop where
  nodup : (elements.map Prod.fst).Nodup
  mem : ∀ timestamp v, (timestamp, v) ∈ elements ↔ hash.find timestamp = some v

/-- One round of the loop of `load_market_kline`. -/
def loadElement (mpd : Mpd D) (jansson : Jansson) (start : ℤ) (dict : Dict ℤ (Kline D))
    (element : ℤ × String) : Dict ℤ (Kline D) :=
  if start ≠ 0 ∧ element.1 < start then dict
  else
    match klineFromStr mpd jansson element.2 with
    | some info => if element.1 ∈ dict then dict else dict.insert element.1 info
    | none => dict

/-- `load_market_kline`, of texts. -/
def loadKlineTexts (mpd : Mpd D) (jansson : Jansson) (elements : List (ℤ × String)) (start : ℤ) :
    Dict ℤ (Kline D) :=
  elements.foldl (loadElement mpd jansson start) ∅

variable {mpd : Mpd D} {jansson : Jansson} {start : ℤ}

theorem find_loadElement {dict : Dict ℤ (Kline D)} {element : ℤ × String}
    (hnew : dict.find element.1 = none) (timestamp : ℤ) (info : Kline D) :
    (loadElement mpd jansson start dict element).find timestamp = some info ↔
      dict.find timestamp = some info ∨
        timestamp = element.1 ∧ ¬(start ≠ 0 ∧ timestamp < start) ∧
          klineFromStr mpd jansson element.2 = some info := by
  have hne : dict.find timestamp = some info → timestamp ≠ element.1 := by
    rintro hfind rfl
    rw [hnew] at hfind
    cases hfind
  unfold loadElement
  by_cases hold : start ≠ 0 ∧ element.1 < start
  · rw [if_pos hold]
    refine ⟨Or.inl, ?_⟩
    rintro (hfind | ⟨rfl, hstart, -⟩)
    · exact hfind
    · exact absurd hold hstart
  · rw [if_neg hold]
    cases hread : klineFromStr mpd jansson element.2 with
    | none => simp
    | some read =>
      simp only [if_neg (Dict.find_eq_none.mp hnew), Dict.find_insert]
      by_cases ht : timestamp = element.1
      · subst ht
        simp [hnew, hold]
      · simp [ht]

/-- Each text that can be read becomes a bar. -/
theorem find_loadKlineTexts {elements : List (ℤ × String)}
    (hnodup : (elements.map Prod.fst).Nodup) (timestamp : ℤ) (info : Kline D) :
    (loadKlineTexts mpd jansson elements start).find timestamp = some info ↔
      ∃ str, (timestamp, str) ∈ elements ∧ ¬(start ≠ 0 ∧ timestamp < start) ∧
        klineFromStr mpd jansson str = some info := by
  induction elements using List.reverseRecOn generalizing timestamp info with
  | nil => simp [loadKlineTexts]
  | append_singleton elements element ih =>
    rw [List.map_append, List.nodup_append] at hnodup
    obtain ⟨hnodup, -, hdisjoint⟩ := hnodup
    have hnew : (loadKlineTexts mpd jansson elements start).find element.1 = none := by
      by_contra hfind
      obtain ⟨info, hfind⟩ := Option.ne_none_iff_exists'.mp hfind
      obtain ⟨str, hmem, -⟩ := (ih hnodup _ _).mp hfind
      exact hdisjoint _ (List.mem_map_of_mem hmem) _ (by simp) rfl
    have hstep : loadKlineTexts mpd jansson (elements ++ [element]) start =
        loadElement mpd jansson start (loadKlineTexts mpd jansson elements start) element :=
      List.foldl_concat ..
    rw [hstep, find_loadElement hnew, ih hnodup]
    constructor
    · rintro (⟨str, hmem, hread⟩ | ⟨rfl, hread⟩)
      · exact ⟨str, List.mem_append_left _ hmem, hread⟩
      · exact ⟨element.2, by simp, hread⟩
    · rintro ⟨str, hmem, hread⟩
      rcases List.mem_append.mp hmem with hmem | hmem
      · exact Or.inl ⟨str, hmem, hread⟩
      · obtain rfl := List.mem_singleton.mp hmem
        exact Or.inr ⟨rfl, hread⟩

end Load

section Texts

variable (toSci : FiniteDecimal → Numeral) (jansson : Jansson)

/-- The hashes of bars, as Redis has them. -/
abbrev KlineTexts : Type := String → KlineType → Dict ℤ String

/-- An `HSET` of `flush_kline`, and whether it is carried out. -/
structure BarWrite where
  name : String
  type : KlineType
  timestamp : ℤ
  kinfo : Kline FiniteDecimal
  applied : Bool

/-- What it does to the texts. -/
def BarWrite.toTexts (w : BarWrite) (texts : KlineTexts) : KlineTexts :=
  if w.applied then
    Function.update texts w.name (Function.update (texts w.name) w.type
      ((texts w.name w.type).insert w.timestamp (klineToStr toSci jansson w.kinfo)))
  else texts

/-- What it does to the values. -/
def BarWrite.toValues (w : BarWrite) (r : Redis ℚ) : Redis ℚ :=
  r.hset w.name w.type w.timestamp (w.kinfo.map FiniteDecimal.value) w.applied

/-- The texts of some bars, and their values. -/
structure StoresBars (bars : Dict ℤ (Kline FiniteDecimal)) (texts : Dict ℤ String)
    (values : Dict ℤ (Kline ℚ)) : Prop where
  fits : ∀ timestamp info, bars.find timestamp = some info → info.Fits
  texts_eq : texts = bars.mapValues (klineToStr toSci jansson)
  values_eq : values = bars.mapValues (Kline.map FiniteDecimal.value)

def HoldsTexts (texts : KlineTexts) (r : Redis ℚ) : Prop :=
  ∀ name type, ∃ bars, StoresBars toSci jansson bars (texts name type) (r.kline name type)

variable {toSci jansson}

theorem StoresBars.insert {bars : Dict ℤ (Kline FiniteDecimal)} {texts : Dict ℤ String}
    {values : Dict ℤ (Kline ℚ)} (h : StoresBars toSci jansson bars texts values) (timestamp : ℤ)
    {info : Kline FiniteDecimal} (hfits : info.Fits) :
    StoresBars toSci jansson (bars.insert timestamp info)
      (texts.insert timestamp (klineToStr toSci jansson info))
      (values.insert timestamp (info.map FiniteDecimal.value)) where
  fits timestamp' info' hfind := by
    rw [Dict.find_insert] at hfind
    split_ifs at hfind
    · obtain rfl := Option.some.inj hfind
      exact hfits
    · exact h.fits _ _ hfind
  texts_eq := by rw [h.texts_eq, Dict.mapValues_insert]
  values_eq := by rw [h.values_eq, Dict.mapValues_insert]

theorem holdsTexts_empty : HoldsTexts toSci jansson (fun _ _ => ∅) Redis.empty :=
  fun _ _ => ⟨∅, fun _ _ h => by simp at h, rfl, rfl⟩

theorem HoldsTexts.write {texts : KlineTexts} {r : Redis ℚ} (h : HoldsTexts toSci jansson texts r)
    {w : BarWrite} (hfits : w.kinfo.Fits) :
    HoldsTexts toSci jansson (w.toTexts toSci jansson texts) (w.toValues r) := by
  unfold BarWrite.toTexts BarWrite.toValues Redis.hset
  cases w.applied with
  | false => exact h
  | true =>
    intro name type
    obtain ⟨bars, hbars⟩ := h name type
    by_cases hname : name = w.name
    · subst hname
      by_cases htype : type = w.type
      · subst htype
        simp only [if_true, Function.update_self]
        exact ⟨_, hbars.insert w.timestamp hfits⟩
      · simp only [if_true, Function.update_self, Function.update_of_ne htype]
        exact ⟨bars, hbars⟩
    · simp only [if_true, Function.update_of_ne hname]
      exact ⟨bars, hbars⟩

theorem HoldsTexts.writes {writes : List BarWrite} (hfits : ∀ w ∈ writes, w.kinfo.Fits)
    {texts : KlineTexts} {r : Redis ℚ} (h : HoldsTexts toSci jansson texts r) :
    HoldsTexts toSci jansson (writes.foldl (fun texts w => w.toTexts toSci jansson texts) texts)
      (writes.foldl (fun r w => w.toValues r) r) := by
  induction writes generalizing texts r with
  | nil => exact h
  | cons w writes ih =>
    obtain ⟨hw, hfits⟩ := List.forall_mem_cons.mp hfits
    exact ih hfits (h.write hw)

/-- **A load reads the bars that were written.** -/
theorem loadKlineTexts_stores (hsci : SciInverse toSci) (hjson : jansson.RoundTrips)
    {bars : Dict ℤ (Kline FiniteDecimal)} {texts : Dict ℤ String} {values : Dict ℤ (Kline ℚ)}
    (h : StoresBars toSci jansson bars texts values) {elements : List (ℤ × String)}
    (hreply : HgetallReply texts elements) (start : ℤ) :
    loadKlineTexts decimal128 jansson elements start = loadMarketKline values start := by
  refine Dict.ext_find fun timestamp => Option.ext fun info => ?_
  rw [find_loadKlineTexts hreply.nodup, loadMarketKline, Dict.find_filter_eq_some, h.values_eq,
    Dict.find_mapValues]
  simp only [hreply.mem, h.texts_eq, Dict.find_mapValues, Option.map_eq_some_iff]
  constructor
  · rintro ⟨_, ⟨bar, hbar, rfl⟩, hstart, hread⟩
    rw [klineFromStr_klineToStr hsci hjson (h.fits _ _ hbar)] at hread
    exact ⟨⟨bar, hbar, Option.some.inj hread⟩, by simpa [or_iff_not_imp_left] using hstart⟩
  · rintro ⟨⟨bar, hbar, rfl⟩, hstart⟩
    exact ⟨_, ⟨bar, hbar, rfl⟩, by simpa [or_iff_not_imp_left] using hstart,
      klineFromStr_klineToStr hsci hjson (h.fits _ _ hbar)⟩

/-- **Numbers and bars survive their texts.** A number of no more digits than the context has is
found again in an object and in an array, a bar of such numbers in its text, and every bar that was
written in Redis. -/
theorem texts_survive (hsci : SciInverse toSci) (hjson : jansson.RoundTrips) :
    (∀ d, decimal128.decimal (mpdText toSci d) 0 = decimal128.setString (toSci d).text) ∧
    (∀ d : FiniteDecimal, d.digits.length ≤ 34 →
      (∀ obj key, ∃ str, (jsonObjectSetNewMpd toSci obj key d).lookup key = some (.string str) ∧
        decimal128.decimal str 0 = some d.value) ∧
      ∀ obj, ∃ str, jsonArrayAppendNewMpd toSci obj d = obj ++ [.string str] ∧
        decimal128.decimal str 0 = some d.value) ∧
    (∀ info : Kline FiniteDecimal, info.Fits →
      klineFromStr decimal128 jansson (klineToStr toSci jansson info) =
        some (info.map FiniteDecimal.value)) ∧
    ∀ writes : List BarWrite, (∀ w ∈ writes, w.kinfo.Fits) →
      ∀ (name : String) (type : KlineType) (elements : List (ℤ × String)) (start : ℤ),
        HgetallReply (writes.foldl (fun texts w => w.toTexts toSci jansson texts)
          (fun _ _ => ∅) name type) elements →
        loadKlineTexts decimal128 jansson elements start =
          loadMarketKline ((writes.foldl (fun r w => w.toValues r) Redis.empty).kline name type)
            start := by
  refine ⟨decimal_mpdText toSci, fun d hd => ⟨fun obj key => ?_, fun obj => ?_⟩,
    fun info => klineFromStr_klineToStr hsci hjson, ?_⟩
  · exact ⟨mpdText toSci d, lookup_jsonObjectSetNew obj key _, hsci.decimal hd⟩
  · exact ⟨mpdText toSci d, rfl, hsci.decimal hd⟩
  · intro writes hfits name type elements start hreply
    obtain ⟨bars, hbars⟩ := HoldsTexts.writes hfits holdsTexts_empty name type
    exact loadKlineTexts_stores hsci hjson hbars hreply start

end Texts

/-! ## A run -/

/-- The strings between quotes, where nothing is escaped; `text` is what is read of one. -/
def scanStrings : Option (List Char) → List Char → List String
  | _, [] => []
  | none, c :: cs => if c = Char.ofNat 34 then scanStrings (some []) cs else scanStrings none cs
  | some text, c :: cs =>
    if c = Char.ofNat 34 then String.ofList text :: scanStrings none cs
    else scanStrings (some (text ++ [c])) cs

theorem scanStrings_inside {cs : List Char} (h : Char.ofNat 34 ∉ cs) (text rest : List Char) :
    scanStrings (some text) (cs ++ Char.ofNat 34 :: rest) =
      String.ofList (text ++ cs) :: scanStrings none rest := by
  induction cs generalizing text with
  | nil => simp [scanStrings]
  | cons c cs ih =>
    rw [List.mem_cons, not_or] at h
    rw [List.cons_append, scanStrings, if_neg (Ne.symm h.1), ih h.2, List.append_assoc]
    rfl

theorem toNat_of_isSci {c : Char} (h : isSci c = true) : 43 ≤ c.toNat ∧ c.toNat ≠ 92 := by
  have hothers : ∀ n < 93, n < 43 ∨ n = 92 → isSci (Char.ofNat n) = false := by decide
  by_contra hc
  have hn : c.toNat < 43 ∨ c.toNat = 92 := by omega
  have hfalse := hothers c.toNat (by omega) hn
  rw [Char.ofNat_toNat, h] at hfalse
  cases hfalse

theorem stringText_of_isSci {s : String} (h : s.toList.all isSci = true) :
    stringText s = Char.ofNat 34 :: (s.toList ++ [Char.ofNat 34]) := by
  have hescape : ∀ c ∈ s.toList, escapeChar c = [c] := by
    intro c hc
    obtain ⟨hle, hne⟩ := toNat_of_isSci (List.all_eq_true.mp h c hc)
    have hnone : shortEscapes.lookup c.toNat = none := by
      refine List.lookup_eq_none_iff.mpr fun p hp => ?_
      have hall : ∀ p ∈ shortEscapes, p.1 < 43 ∨ p.1 = 92 := by decide
      rcases hall p hp with hlt | heq
      · exact bne_iff_ne.mpr (by omega)
      · exact bne_iff_ne.mpr (by omega)
    rw [escapeChar, hnone]
    simp only [if_neg (show ¬c.toNat < 32 by omega)]
  have hflat : s.toList.flatMap escapeChar = s.toList := by
    rw [List.flatMap_congr hescape, List.flatMap_singleton']
  rw [stringText, hflat]

theorem scanStrings_stringText {s : String} (h : s.toList.all isSci = true) (rest : List Char) :
    scanStrings none (stringText s ++ rest) = s :: scanStrings none rest := by
  have hquote : Char.ofNat 34 ∉ s.toList := fun hmem =>
    absurd (toNat_of_isSci (List.all_eq_true.mp h _ hmem)).1 (by decide)
  rw [stringText_of_isSci h, List.cons_append, List.append_assoc, List.singleton_append,
    scanStrings, if_pos rfl, scanStrings_inside hquote, List.nil_append, String.ofList_toList]

theorem scanStrings_elementsText {texts : List String}
    (h : ∀ s ∈ texts, s.toList.all isSci = true) (realText : ℚ → List Char) :
    scanStrings none (elementsText realText (texts.map .string) ++ [']']) = texts := by
  induction texts with
  | nil => rfl
  | cons s texts ih =>
    obtain ⟨hs, htexts⟩ := List.forall_mem_cons.mp h
    cases texts with
    | nil => exact scanStrings_stringText hs _
    | cons s' texts =>
      have hcomma : ∀ cs, scanStrings none (", ".toList ++ cs) = scanStrings none cs :=
        fun _ => rfl
      rw [List.map_cons, List.map_cons, elementsText, Json.plainText, List.append_assoc,
        List.append_assoc, scanStrings_stringText hs, hcomma, ← List.map_cons, ih htexts]

/-- A jansson that dumps what `plainDumps` does, and loads arrays of strings without escapes. -/
def plainJansson : Jansson where
  dumps v := String.ofList (v.plainText fun _ => [])
  loadb str := some (.array ((scanStrings none str.toList).map .string))

theorem roundTrips_plainJansson : plainJansson.RoundTrips := by
  intro texts h
  show some (Json.array ((scanStrings none (String.toList (String.ofList _))).map .string)) = _
  rw [String.toList_ofList, Json.plainText]
  show some (Json.array ((scanStrings none (elementsText _ _ ++ [']'])).map .string)) = _
  rw [scanStrings_elementsText h]

/-- 0.00120, 1e-9, 1.20e+4, -0.00, 34 digits and 1500.00. -/
def exampleBar : Kline FiniteDecimal where
  opening := ⟨false, 120, -5⟩
  close := ⟨false, 1, -9⟩
  high := ⟨false, 120, 2⟩
  low := ⟨true, 0, -2⟩
  volume := ⟨false, 1234567890123456789012345678901234, -8⟩
  deal := ⟨false, 150000, -2⟩

/-- The bar, written twice, and then not a third time. -/
def exampleWrites : List BarWrite :=
  [⟨"BTCUSD", .day, 0, exampleBar, true⟩, ⟨"BTCUSD", .day, 0, exampleBar, true⟩,
    ⟨"BTCUSD", .day, 86400, exampleBar, false⟩]

theorem fits_exampleBar : exampleBar.Fits := by
  intro d hd
  fin_cases hd <;> decide +kernel

theorem texts_survive_run :
    klineToStr FiniteDecimal.scientific plainJansson exampleBar =
      "[\"0.0012\", \"1e-9\", \"1.20e+4\", \"-0\", \"12345678901234567890123456.78901234\", " ++
        "\"1500\"]" ∧
    klineFromStr decimal128 plainJansson
      (klineToStr FiniteDecimal.scientific plainJansson exampleBar) =
        some (exampleBar.map FiniteDecimal.value) ∧
    loadKlineTexts decimal128 plainJansson
      [(0, klineToStr FiniteDecimal.scientific plainJansson exampleBar)] 0 =
        loadMarketKline ((exampleWrites.foldl (fun r w => w.toValues r) Redis.empty).kline
          "BTCUSD" .day) 0 := by
  have h := texts_survive sciInverse_scientific roundTrips_plainJansson
  refine ⟨by decide +kernel, h.2.2.1 exampleBar fits_exampleBar,
    h.2.2.2 exampleWrites ?_ "BTCUSD" .day _ 0 ⟨List.nodup_singleton _, fun timestamp v => ?_⟩⟩
  · intro w hw
    simp only [exampleWrites, List.mem_cons, List.not_mem_nil, or_false] at hw
    rcases hw with rfl | rfl | rfl <;> exact fits_exampleBar
  · simp only [exampleWrites, List.foldl_cons, List.foldl_nil, BarWrite.toTexts, if_true,
      Bool.false_eq_true, if_false, Function.update_self, Dict.find_insert, Dict.find_empty]
    by_cases ht : timestamp = 0 <;> simp [ht, eq_comm]

end ViabtcExchange
