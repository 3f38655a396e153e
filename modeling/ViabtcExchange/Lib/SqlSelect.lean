import ViabtcExchange.Lib.Numerals
import ViabtcExchange.Lib.Paging
import ViabtcExchange.Lib.Sql

/-!
# Reading a `SELECT`

The text of a query for some columns of the rows of a table for which all of some comparisons hold,
and what MySQL makes of it: perhaps the rows are ordered by a column, the largest first, and cut. Of
every other query nothing is read: `readSelect` is `none` there. Keywords may be in small letters.

**Theorem (`readSelect_selectText`).** A query with written values is read back.

`Select.run` are the rows it is answered with. How texts are compared is a parameter, the collation
of the table. Of rows that are ordered by the column a page is answered, the last ones first
(`Select.run_ordered`).
-/

namespace ViabtcExchange

namespace Sql

/-! ## Lexing -/

/-- A comparison is one or two of `op`. -/
inductive SelectToken
  | token (t : Token)
  | op (c : Char)
deriving DecidableEq, Repr

def isOp (c : Char) : Bool := c = '=' || c = '<' || c = '>'

/-- `feed` knows of no comparisons. -/
def feedSelect (st : Lexer) (c : Char) : Option (List SelectToken × Lexer) :=
  match feed st c with
  | some r => some (r.1.map .token, r.2)
  | none =>
    if isOp c then
      match st with
      | .plain => some ([.op c], .plain)
      | .word cs => some ([.token (.word cs), .op c], .plain)
      | .quote cs => some ([.token (.string cs), .op c], .plain)
      | _ => none
    else none

def lexSelect : Lexer → List Char → Option (List SelectToken × Lexer)
  | st, [] => some ([], st)
  | st, c :: cs =>
    (feedSelect st c).bind fun r => (lexSelect r.2 cs).map fun r' => (r.1 ++ r'.1, r'.2)

def selectTokens (cs : List Char) : Option (List SelectToken) :=
  (lexSelect .plain cs).bind fun r =>
    match r.2 with
    | .plain => some r.1
    | .word cs => some (r.1 ++ [.token (.word cs)])
    | .quote cs => some (r.1 ++ [.token (.string cs)])
    | _ => none

/-! ## Parsing -/

inductive Cmp
  | eq
  | ge
  | lt
deriving DecidableEq, Repr

structure Cond where
  column : List Char
  cmp : Cmp
  value : Literal
deriving DecidableEq, Repr

/-- The rows of an order from a place on, up to `limit` of them. -/
structure Cut where
  column : List Char
  offset : ℕ
  limit : ℕ
deriving DecidableEq, Repr

structure Select where
  columns : List (List Char)
  table : List Char
  conds : List Cond
  cut : Option Cut
deriving DecidableEq, Repr

def keyword (cs : List Char) (word : String) : Bool := cs.map Char.toUpper = word.toList

def readColumns : List (List Char) → List SelectToken →
    Option (List (List Char) × List SelectToken)
  | names, .token (.name cs) :: .token .comma :: ts => readColumns (names ++ [cs]) ts
  | names, .token (.name cs) :: ts => some (names ++ [cs], ts)
  | _, _ => none

def readCond : List SelectToken → Option (Cond × List SelectToken)
  | .token (.name column) :: .op c :: .op c' :: .token t :: ts =>
    if c = '>' ∧ c' = '=' then t.literal.map fun l => (⟨column, .ge, l⟩, ts) else none
  | .token (.name column) :: .op c :: .token t :: ts =>
    if c = '=' then t.literal.map fun l => (⟨column, .eq, l⟩, ts)
    else if c = '<' then t.literal.map fun l => (⟨column, .lt, l⟩, ts)
    else none
  | _ => none

/-- The comparisons that are joined by `AND`, no more than `fuel` of them. -/
def readConds : ℕ → List SelectToken → Option (List Cond × List SelectToken)
  | 0, _ => none
  | fuel + 1, ts =>
    (readCond ts).bind fun r =>
      match r.2 with
      | .token (.word w) :: ts' =>
        if keyword w "AND" then (readConds fuel ts').map fun r' => (r.1 :: r'.1, r'.2)
        else some ([r.1], r.2)
      | _ => some ([r.1], r.2)

def isDigits (cs : List Char) : Bool := !cs.isEmpty && cs.all Char.isDigit

def readCut : List SelectToken → Option (Option Cut)
  | [] => some none
  | .token (.word order) :: .token (.word by') :: .token (.name column) :: .token (.word desc) ::
      .token (.word limit) :: .token (.word n) :: ts =>
    if keyword order "ORDER" && keyword by' "BY" && keyword desc "DESC" && keyword limit "LIMIT" &&
      isDigits n then
      match ts with
      | [] => some (some ⟨column, 0, digitsNat n⟩)
      | [.token .comma, .token (.word m)] =>
        if isDigits m then some (some ⟨column, digitsNat n, digitsNat m⟩) else none
      | _ => none
    else none
  | _ => none

def parseSelect : List SelectToken → Option Select
  | .token (.word select) :: ts =>
    if keyword select "SELECT" then
      (readColumns [] ts).bind fun r =>
        match r.2 with
        | .token (.word from') :: .token (.name table) :: .token (.word where') :: ts =>
          if keyword from' "FROM" && keyword where' "WHERE" then
            (readConds ts.length ts).bind fun r' => (readCut r'.2).map (⟨r.1, table, r'.1, ·⟩)
          else none
        | _ => none
    else none
  | _ => none

def readSelect (cs : List Char) : Option Select := (selectTokens cs).bind parseSelect

/-! ## Writing -/

def backquoted (cs : List Char) : List Char := backquote :: (cs ++ [backquote])

def Cmp.chars : Cmp → List Char
  | .eq => ['=']
  | .ge => ['>', '=']
  | .lt => ['<']

/-- A comparison of a column with a value that is written as `text`. -/
def condText (column : List Char) (cmp : Cmp) (text : List Char) : List Char :=
  backquoted column ++ (' ' :: (cmp.chars ++ (' ' :: text)))

def condsText : List (List Char) → List Char
  | [] => []
  | [cond] => cond
  | cond :: conds => cond ++ " AND ".toList ++ condsText conds

/-- Up to the comparisons. -/
def selectHeader (columns : List (List Char)) (table : List Char) (where' : String) : List Char :=
  "SELECT ".toList ++ commaSep (columns.map backquoted) ++ " FROM ".toList ++ backquoted table ++
    (' ' :: (where'.toList ++ [' ']))

/-- Behind the comparisons. An offset of 0 is not written. -/
def cutText (cut : Cut) : List Char :=
  " ORDER BY ".toList ++ backquoted cut.column ++ " DESC".toList ++ " LIMIT ".toList ++
    (if cut.offset ≠ 0 then Nat.toDigits 10 cut.offset ++ ", ".toList else []) ++
    Nat.toDigits 10 cut.limit

/-! ## What the lexer makes of what is written -/

theorem lexSelect_of_lex {cs : List Char} : ∀ {st st' : Lexer} {ts : List Token},
    lex st cs = some (ts, st') → lexSelect st cs = some (ts.map .token, st') := by
  induction cs with
  | nil =>
    intro st st' ts h
    obtain ⟨rfl, rfl⟩ := Prod.mk.inj (Option.some.inj h)
    rfl
  | cons c cs ih =>
    intro st st' ts h
    rw [lex] at h
    obtain ⟨r, hfeed, h⟩ := Option.bind_eq_some_iff.mp h
    obtain ⟨r', hlex, h⟩ := Option.map_eq_some_iff.mp h
    obtain ⟨rfl, rfl⟩ := Prod.mk.inj h
    have hselect : feedSelect st c = some (r.1.map .token, r.2) := by
      unfold feedSelect
      rw [hfeed]
    rw [lexSelect, hselect, Option.bind_some, ih hlex, Option.map_some, List.map_append]

theorem lexSelect_append (st : Lexer) (cs cs' : List Char) : lexSelect st (cs ++ cs') =
    (lexSelect st cs).bind fun r => (lexSelect r.2 cs').map fun r' => (r.1 ++ r'.1, r'.2) := by
  induction cs generalizing st with
  | nil => simp [lexSelect]
  | cons c cs ih =>
    rw [List.cons_append, lexSelect, lexSelect]
    cases feedSelect st c with
    | none => rfl
    | some r =>
      simp only [Option.bind_some, ih]
      cases lexSelect r.2 cs with
      | none => rfl
      | some r' =>
        simp only [Option.bind_some, Option.map_some]
        cases lexSelect r'.2 cs' with
        | none => rfl
        | some r'' => simp

theorem lexSelect_of {st st' st'' : Lexer} {cs cs' : List Char} {ts ts' : List SelectToken}
    (h : lexSelect st cs = some (ts, st')) (h' : lexSelect st' cs' = some (ts', st'')) :
    lexSelect st (cs ++ cs') = some (ts ++ ts', st'') := by
  rw [lexSelect_append, h, Option.bind_some, h']
  rfl

/-- A blank ends the token that is held. -/
theorem lexSelect_held {st st' : Lexer} {t : Token} {cs : List Char} {ts : List SelectToken}
    (h : st.held = some t) (hcs : lexSelect .plain cs = some (ts, st')) :
    lexSelect st (' ' :: cs) = some (.token t :: ts, st') := by
  have hfeed : feedSelect st ' ' = some ([.token t], .plain) := by
    cases st with
    | word w =>
      obtain rfl := Option.some.inj h
      rfl
    | quote w =>
      obtain rfl := Option.some.inj h
      rfl
    | plain => cases h
    | name w => cases h
    | string w => cases h
    | escape w => cases h
  rw [lexSelect, hfeed, Option.bind_some, hcs]
  rfl

theorem lexSelect_comma {st : Lexer} {t : Token} (h : st.held = some t) :
    lexSelect st ", ".toList = some ([.token t, .token .comma], .plain) :=
  lexSelect_of_lex (lex_held h (Or.inl ⟨rfl, rfl⟩) [' '])

theorem selectTokens_of_held {cs : List Char} {ts : List SelectToken} {st : Lexer} {t : Token}
    (h : lexSelect .plain cs = some (ts, st)) (hst : st.held = some t) :
    selectTokens cs = some (ts ++ [.token t]) := by
  unfold selectTokens
  rw [h, Option.bind_some]
  cases st with
  | word w =>
    obtain rfl := Option.some.inj hst
    rfl
  | quote w =>
    obtain rfl := Option.some.inj hst
    rfl
  | plain => cases hst
  | name w => cases hst
  | string w => cases hst
  | escape w => cases hst

theorem lexSelect_backquoted {cs : List Char} (h : backquote ∉ cs) :
    lexSelect .plain (backquoted cs) = some ([.token (.name cs)], .plain) :=
  lexSelect_of_lex (lex_backquoted h)

theorem isDigits_toDigits (n : ℕ) : isDigits (Nat.toDigits 10 n) = true := by
  unfold isDigits
  rw [Bool.and_eq_true, List.all_eq_true]
  exact ⟨by simp [Nat.toDigits_ne_nil], fun c hc =>
    Nat.isDigit_of_mem_toDigits (by norm_num) le_rfl hc⟩

theorem isNumeral_of_isDigits {cs : List Char} (h : isDigits cs = true) : isNumeral cs = true := by
  unfold isDigits at h
  rw [Bool.and_eq_true, List.all_eq_true] at h
  have hhead : ¬cs.head? = some '-' := by
    intro hminus
    exact absurd (h.2 '-' (List.mem_of_mem_head? hminus)) (by decide)
  unfold isNumeral
  simp only [if_neg hhead, Bool.and_eq_true, List.all_eq_true]
  exact ⟨h.1, fun c hc => by rw [h.2 c hc, Bool.true_or]⟩

/-- The lexer behind a number. -/
theorem lexSelect_toDigits (n : ℕ) :
    ∃ st, lexSelect .plain (Nat.toDigits 10 n) = some ([], st) ∧
      st.held = some (.word (Nat.toDigits 10 n)) := by
  obtain ⟨st, hlex, hst⟩ := (written_number (isNumeral_of_isDigits (isDigits_toDigits n))).held
  exact ⟨st, lexSelect_of_lex hlex, hst⟩

/-! ## Comparisons -/

/-- A comparison of a column with a name, with a value that is read back. -/
def CondWritten (cond : Cond) (cs : List Char) : Prop :=
  backquote ∉ cond.column ∧
    ∃ text, Written cond.value text ∧ cs = condText cond.column cond.cmp text

/-- The tokens of a comparison without its value. -/
def Cond.front (cond : Cond) : List SelectToken :=
  .token (.name cond.column) :: cond.cmp.chars.map .op

def condsTokens : List Cond → List SelectToken
  | [] => []
  | [cond] => cond.front ++ [.token cond.value.token]
  | cond :: conds =>
    cond.front ++ .token cond.value.token :: .token (.word "AND".toList) :: condsTokens conds

theorem lexSelect_cond {cond : Cond} {cs : List Char} (h : CondWritten cond cs) :
    ∃ st, lexSelect .plain cs = some (cond.front, st) ∧ st.held = some cond.value.token := by
  obtain ⟨hcolumn, text, hwritten, rfl⟩ := h
  obtain ⟨st, hlex, hst⟩ := hwritten.held
  have hcmp : lexSelect .plain (' ' :: (cond.cmp.chars ++ [' '])) =
      some (cond.cmp.chars.map .op, .plain) := by
    cases cond.cmp <;> rfl
  refine ⟨st, ?_, hst⟩
  have hall := lexSelect_of (lexSelect_backquoted hcolumn)
    (lexSelect_of hcmp (lexSelect_of_lex hlex))
  unfold condText
  simpa [Cond.front] using hall

theorem lexSelect_conds {conds : List Cond} {texts : List (List Char)}
    (h : List.Forall₂ CondWritten conds texts) (hne : conds ≠ []) :
    ∃ ts st t, lexSelect .plain (condsText texts) = some (ts, st) ∧ st.held = some t ∧
      ts ++ [.token t] = condsTokens conds := by
  induction h with
  | nil => exact absurd rfl hne
  | @cons cond cs conds texts hcond hconds ih =>
    obtain ⟨st, hlex, hst⟩ := lexSelect_cond hcond
    cases hconds with
    | nil => exact ⟨_, st, _, hlex, hst, rfl⟩
    | @cons cond' cs' conds texts hcond' hconds =>
      obtain ⟨ts, st', t, hlex', hst', htokens⟩ := ih (List.cons_ne_nil _ _)
      have hand : lexSelect .plain "AND ".toList = some ([.token (.word "AND".toList)], .plain) := by
        decide +kernel
      have hrest := lexSelect_held hst (lexSelect_of hand hlex')
      refine ⟨cond.front ++ .token cond.value.token :: .token (.word "AND".toList) :: ts, st', t, ?_,
        hst', ?_⟩
      · have htext : condsText (cs :: cs' :: texts) =
            cs ++ ' ' :: ("AND ".toList ++ condsText (cs' :: texts)) := by
          simp [condsText]
        rw [htext]
        exact lexSelect_of hlex hrest
      · rw [condsTokens, ← htokens]
        · simp
        · exact List.cons_ne_nil _ _

theorem literal_conds {conds : List Cond} {texts : List (List Char)}
    (h : List.Forall₂ CondWritten conds texts) :
    ∀ cond ∈ conds, cond.value.token.literal = some cond.value := by
  induction h with
  | nil => simp
  | cons hcond _ ih =>
    obtain ⟨-, text, hwritten, -⟩ := hcond
    intro cond hmem
    rcases List.mem_cons.mp hmem with rfl | hmem
    · exact hwritten.literal
    · exact ih cond hmem

theorem readCond_front {cond : Cond} (h : cond.value.token.literal = some cond.value)
    (ts : List SelectToken) :
    readCond (cond.front ++ .token cond.value.token :: ts) = some (cond, ts) := by
  obtain ⟨column, cmp, value⟩ := cond
  cases cmp <;> simp [Cond.front, Cmp.chars, readCond, h]

/-- What may stand behind comparisons. -/
def NoAnd : List SelectToken → Prop
  | .token (.word w) :: _ => keyword w "AND" = false
  | _ => True

theorem readConds_condsTokens {conds : List Cond} (hne : conds ≠ [])
    (h : ∀ cond ∈ conds, cond.value.token.literal = some cond.value) {ts : List SelectToken}
    (hts : NoAnd ts) {fuel : ℕ} (hfuel : conds.length ≤ fuel) :
    readConds fuel (condsTokens conds ++ ts) = some (conds, ts) := by
  induction conds generalizing fuel with
  | nil => exact absurd rfl hne
  | cons cond conds ih =>
    obtain ⟨fuel, rfl⟩ : ∃ n, fuel = n + 1 := ⟨fuel - 1, by rw [List.length_cons] at hfuel; omega⟩
    have hcond := h cond (List.mem_cons_self ..)
    cases conds with
    | nil =>
      rw [condsTokens, List.append_assoc, List.singleton_append, readConds, readCond_front hcond,
        Option.bind_some]
      unfold NoAnd at hts
      split at hts
      · simp [hts]
      · rfl
    | cons cond' conds =>
      have hrest := ih (List.cons_ne_nil _ _) (fun c hc => h c (List.mem_cons_of_mem _ hc))
        (Nat.le_of_succ_le_succ hfuel)
      rw [condsTokens, List.append_assoc, List.cons_append, List.cons_append, readConds,
        readCond_front hcond, Option.bind_some]
      · simp only
        rw [if_pos (by decide +kernel), hrest]
        rfl
      · exact List.cons_ne_nil _ _

theorem length_condsTokens (conds : List Cond) : conds.length ≤ (condsTokens conds).length := by
  induction conds using condsTokens.induct with
  | case1 => exact le_rfl
  | case2 cond => simp [condsTokens, Cond.front]
  | case3 cond conds hne ih =>
    rw [condsTokens]
    · simp only [List.length_cons, List.length_append]
      omega
    · exact hne

/-! ## A query -/

def columnTokens : List (List Char) → List SelectToken
  | [] => []
  | [cs] => [.token (.name cs)]
  | cs :: names => .token (.name cs) :: .token .comma :: columnTokens names

theorem lexSelect_columns {names : List (List Char)} (h : ∀ cs ∈ names, backquote ∉ cs) :
    lexSelect .plain (commaSep (names.map backquoted)) = some (columnTokens names, .plain) := by
  induction names with
  | nil => rfl
  | cons cs names ih =>
    have hfirst := lexSelect_backquoted (h cs (List.mem_cons_self ..))
    cases names with
    | nil => exact hfirst
    | cons cs' names =>
      have hrest := ih fun cs hmem => h cs (List.mem_cons_of_mem _ hmem)
      have hsep : lexSelect .plain [',', ' '] = some ([.token .comma], .plain) := rfl
      have hall := lexSelect_of hfirst (lexSelect_of hsep hrest)
      simpa [commaSep, columnTokens] using hall

theorem readColumns_columnTokens {names : List (List Char)} (hne : names ≠ []) (w : List Char)
    (ts : List SelectToken) : ∀ first, readColumns first (columnTokens names ++ .token (.word w) :: ts) =
      some (first ++ names, .token (.word w) :: ts) := by
  induction names with
  | nil => exact absurd rfl hne
  | cons cs names ih =>
    intro first
    cases names with
    | nil => simp [columnTokens, readColumns]
    | cons cs' names =>
      have hrest := ih (by simp) (first ++ [cs])
      simpa [columnTokens, readColumns] using hrest

def headerTokens (columns : List (List Char)) (table : List Char) (where' : String) :
    List SelectToken :=
  .token (.word "SELECT".toList) :: (columnTokens columns ++
    [.token (.word "FROM".toList), .token (.name table), .token (.word where'.toList)])

theorem lexSelect_header {columns : List (List Char)} {table : List Char} {where' : String}
    (hcolumns : ∀ cs ∈ columns, backquote ∉ cs) (htable : backquote ∉ table)
    (hwhere : where' = "WHERE" ∨ where' = "where") :
    lexSelect .plain (selectHeader columns table where') =
      some (headerTokens columns table where', .plain) := by
  have hselect : lexSelect .plain "SELECT ".toList =
      some ([.token (.word "SELECT".toList)], .plain) := by decide +kernel
  have hfrom : lexSelect .plain " FROM ".toList =
      some ([.token (.word "FROM".toList)], .plain) := by decide +kernel
  have hword : lexSelect .plain (' ' :: (where'.toList ++ [' '])) =
      some ([.token (.word where'.toList)], .plain) := by
    rcases hwhere with rfl | rfl <;> decide +kernel
  have hall := lexSelect_of hselect (lexSelect_of (lexSelect_columns hcolumns)
    (lexSelect_of hfrom (lexSelect_of (lexSelect_backquoted htable) hword)))
  unfold selectHeader headerTokens
  simpa only [List.append_assoc, List.singleton_append, List.cons_append, List.nil_append] using hall

def cutTokens (cut : Cut) : List SelectToken :=
  [.token (.word "ORDER".toList), .token (.word "BY".toList), .token (.name cut.column),
    .token (.word "DESC".toList), .token (.word "LIMIT".toList)] ++
    (if cut.offset ≠ 0 then [.token (.word (Nat.toDigits 10 cut.offset)), .token .comma] else []) ++
    [.token (.word (Nat.toDigits 10 cut.limit))]

/-- Behind a value that is held. -/
theorem selectTokens_cut {cs : List Char} {ts : List SelectToken} {st : Lexer} {t : Token} {cut : Cut}
    (h : lexSelect .plain cs = some (ts, st)) (hst : st.held = some t)
    (hcolumn : backquote ∉ cut.column) :
    selectTokens (cs ++ cutText cut) = some (ts ++ .token t :: cutTokens cut) := by
  have horder : lexSelect .plain "ORDER BY ".toList =
      some ([.token (.word "ORDER".toList), .token (.word "BY".toList)], .plain) := by decide +kernel
  have hdesc : lexSelect .plain (" DESC".toList ++ " LIMIT ".toList) =
      some ([.token (.word "DESC".toList), .token (.word "LIMIT".toList)], .plain) := by
    decide +kernel
  obtain ⟨st', hlimit, hst'⟩ := lexSelect_toDigits cut.limit
  have hoffset : lexSelect .plain
      (if cut.offset ≠ 0 then Nat.toDigits 10 cut.offset ++ ", ".toList else []) =
      some (if cut.offset ≠ 0 then [.token (.word (Nat.toDigits 10 cut.offset)), .token .comma]
        else [], .plain) := by
    split_ifs
    · obtain ⟨st'', hoffset, hst''⟩ := lexSelect_toDigits cut.offset
      exact lexSelect_of hoffset (lexSelect_comma hst'')
    · rfl
  have hrest := lexSelect_held hst (lexSelect_of horder (lexSelect_of (lexSelect_backquoted hcolumn)
    (lexSelect_of hdesc (lexSelect_of hoffset hlimit))))
  have hall := selectTokens_of_held (lexSelect_of h hrest) hst'
  have htext : cs ++ cutText cut = cs ++ ' ' :: ("ORDER BY ".toList ++ (backquoted cut.column ++
      (" DESC".toList ++ " LIMIT ".toList ++
        ((if cut.offset ≠ 0 then Nat.toDigits 10 cut.offset ++ ", ".toList else []) ++
          Nat.toDigits 10 cut.limit)))) := by
    unfold cutText
    simp only [List.append_assoc]
    rfl
  rw [htext, hall]
  simp [cutTokens]

theorem readCut_cutTokens (cut : Cut) : readCut (cutTokens cut) = some (some cut) := by
  have hkeywords : (keyword "ORDER".toList "ORDER" && keyword "BY".toList "BY" &&
      keyword "DESC".toList "DESC" && keyword "LIMIT".toList "LIMIT") = true := by decide +kernel
  obtain ⟨column, offset, limit⟩ := cut
  unfold cutTokens
  by_cases hoffset : offset ≠ 0
  · simp only [if_pos hoffset, List.cons_append, List.nil_append, readCut, hkeywords,
      isDigits_toDigits, Bool.and_true, if_true, digitsNat_toDigits]
  · obtain rfl := not_not.mp hoffset
    simp only [if_neg hoffset, List.cons_append, List.nil_append, readCut, hkeywords,
      isDigits_toDigits, Bool.and_true, if_true, digitsNat_toDigits]

/-- The text of a query whose comparisons are `texts`. -/
def selectText (s : Select) (where' : String) (texts : List (List Char)) : List Char :=
  selectHeader s.columns s.table where' ++ condsText texts ++ (s.cut.elim [] cutText)

/-- **A query with written values is read back.** -/
theorem readSelect_selectText {s : Select} {where' : String} {texts : List (List Char)}
    (hwhere : where' = "WHERE" ∨ where' = "where") (hcolumns : ∀ cs ∈ s.columns, backquote ∉ cs)
    (hcolumns' : s.columns ≠ []) (htable : backquote ∉ s.table)
    (hconds : List.Forall₂ CondWritten s.conds texts) (hconds' : s.conds ≠ [])
    (hcut : ∀ cut ∈ s.cut, backquote ∉ cut.column) :
    readSelect (selectText s where' texts) = some s := by
  obtain ⟨columns, table, conds, cut⟩ := s
  dsimp only at *
  have hliteral := literal_conds hconds
  obtain ⟨ts, st, t, hlex, hst, htokens⟩ := lexSelect_conds hconds hconds'
  have hhead := lexSelect_of (lexSelect_header hcolumns htable hwhere) hlex
  have hkeywords : (keyword "FROM".toList "FROM" && keyword where'.toList "WHERE") = true := by
    rcases hwhere with rfl | rfl <;> decide +kernel
  have hparse : ∀ rest, NoAnd rest → parseSelect (headerTokens columns table where' ++
      (condsTokens conds ++ rest)) = (readCut rest).map (⟨columns, table, conds, ·⟩) := by
    intro rest hrest
    have hfuel : conds.length ≤ (condsTokens conds ++ rest).length := by
      rw [List.length_append]
      exact (length_condsTokens conds).trans (Nat.le_add_right _ _)
    unfold parseSelect headerTokens
    simp only [List.cons_append, List.append_assoc, List.nil_append]
    rw [if_pos (by decide +kernel), readColumns_columnTokens hcolumns', Option.bind_some]
    simp only [List.nil_append]
    rw [if_pos hkeywords, readConds_condsTokens hconds' hliteral hrest hfuel, Option.bind_some]
  unfold readSelect selectText
  cases cut with
  | none =>
    dsimp only [Option.elim_none]
    rw [List.append_nil, selectTokens_of_held hhead hst, Option.bind_some, List.append_assoc, htokens,
      ← List.append_nil (condsTokens conds), hparse [] trivial]
    rfl
  | some cut =>
    dsimp only [Option.elim_some]
    rw [selectTokens_cut hhead hst (hcut cut rfl), Option.bind_some, List.append_assoc,
      ← List.singleton_append, ← List.append_assoc ts, htokens, hparse (cutTokens cut) (by
        show keyword "ORDER".toList "AND" = false
        decide +kernel), readCut_cutTokens]
    rfl

/-! ## What is answered -/

/-- What is in a column of a row. -/
inductive Value
  | number (x : ℚ)
  | text (cs : List Char)
deriving DecidableEq, Repr

def Cmp.holds : Cmp → ℚ → ℚ → Bool
  | .eq, x, y => x = y
  | .ge, x, y => y ≤ x
  | .lt, x, y => x < y

section Run

variable {ρ : Type} (alike : List Char → List Char → Bool) (column : ρ → List Char → Option Value)

/-- Numbers are compared with numbers, and texts with texts for being alike. -/
def Cond.holds (cond : Cond) (row : ρ) : Bool :=
  match column row cond.column, cond.value with
  | some (.number x), .number cs => cond.cmp.holds x (digitsNat cs)
  | some (.text cs), .text cs' => cond.cmp = .eq && alike cs cs'
  | _, _ => false

/-- The number that rows are ordered by. -/
def orderKey (name : List Char) (row : ρ) : ℚ :=
  match column row name with
  | some (.number x) => x
  | _ => 0

def Select.matching (s : Select) (rows : List ρ) : List ρ :=
  rows.filter fun row => s.conds.all fun cond => cond.holds alike column row

def Select.run (s : Select) (rows : List ρ) : List ρ :=
  match s.cut with
  | none => s.matching alike column rows
  | some cut =>
    page cut.offset cut.limit ((s.matching alike column rows).mergeSort fun row row' =>
      orderKey column cut.column row' ≤ orderKey column cut.column row)

variable {alike column}

/-- Rows in the order of a column are answered the other way round. -/
theorem Select.run_ordered {s : Select} {cut : Cut} {rows : List ρ} (hcut : s.cut = some cut)
    (h : rows.Pairwise fun row row' => orderKey column cut.column row < orderKey column cut.column row') :
    s.run alike column rows = page cut.offset cut.limit (s.matching alike column rows).reverse := by
  have hsorted : ((s.matching alike column rows).reverse).Pairwise fun row row' =>
      orderKey column cut.column row' < orderKey column cut.column row :=
    List.pairwise_reverse.mpr (h.filter _)
  unfold Select.run
  rw [hcut]
  dsimp only
  congr 1
  refine List.Perm.eq_of_pairwise ?_ (List.pairwise_mergeSort ?_ ?_ _)
    (hsorted.imp fun h => decide_eq_true h.le)
    ((List.mergeSort_perm _ _).trans (List.reverse_perm _).symm)
  · intro a b ha hb hab hba
    have hnodup : ((s.matching alike column rows).map (orderKey column cut.column)).Nodup :=
      List.pairwise_map.mpr ((h.filter _).imp ne_of_lt)
    exact List.inj_on_of_nodup_map hnodup ((List.mergeSort_perm _ _).mem_iff.mp ha)
      (List.mem_reverse.mp hb) (le_antisymm (of_decide_eq_true hba) (of_decide_eq_true hab))
  · intro a b c hab hbc
    exact decide_eq_true ((of_decide_eq_true hbc).trans (of_decide_eq_true hab))
  · intro a b
    simp only [Bool.or_eq_true, decide_eq_true_eq]
    exact le_total _ _

end Run

end Sql

end ViabtcExchange
