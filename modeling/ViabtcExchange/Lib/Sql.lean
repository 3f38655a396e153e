import Mathlib.Data.List.Forall2
import Mathlib.Tactic

/-!
# Reading an `INSERT`

The text of a statement with many tuples, and what MySQL makes of it: string literals with their
escapes and doubled quotes, names in backquotes, numbers and `NULL`. Of everything else an SQL
statement can be nothing is read: `readInsert` is `none` there.

A value is `Written` by a text when the lexer, put before it, stands behind it with the token of the
value still in its hand. Numerals, strings pasted between quotes when nothing in them is special
(`written_paste`), and escaped strings of any characters (`written_escape`) are such texts.

**Theorem (`readInsert_insertText`).** Names, and tuples of written values, are read back.
-/

namespace ViabtcExchange

namespace Sql

def apostrophe : Char := Char.ofNat 39

def backslash : Char := Char.ofNat 92

def backquote : Char := Char.ofNat 96

/-! ## Lexing -/

inductive Token
  | word (cs : List Char)
  | name (cs : List Char)
  | string (cs : List Char)
  | lparen
  | rparen
  | comma
deriving DecidableEq, Repr

/-- Where in a token the lexer is. Behind an apostrophe it does not know yet if the string goes
on. -/
inductive Lexer
  | plain
  | word (cs : List Char)
  | name (cs : List Char)
  | string (cs : List Char)
  | escape (cs : List Char)
  | quote (cs : List Char)
deriving DecidableEq, Repr

/-- What a backslash and a character stand for in a string. -/
def unescape (c : Char) : List Char :=
  if c = '0' then [Char.ofNat 0]
  else if c = 'b' then [Char.ofNat 8]
  else if c = 't' then [Char.ofNat 9]
  else if c = 'n' then [Char.ofNat 10]
  else if c = 'r' then [Char.ofNat 13]
  else if c = 'Z' then [Char.ofNat 26]
  else if c = '%' ∨ c = '_' then [backslash, c]
  else [c]

def isBlank (c : Char) : Bool := c = ' ' || c = Char.ofNat 9 || c = Char.ofNat 10 || c = Char.ofNat 13

/-- A character that can stand in a word or a number. -/
def isWord (c : Char) : Bool := c.isAlphanum || c = '_' || c = '.' || c = '$'

/-- The first character of a token. -/
def begin (c : Char) : Option (List Token × Lexer) :=
  if isBlank c then some ([], .plain)
  else if c = '(' then some ([.lparen], .plain)
  else if c = ')' then some ([.rparen], .plain)
  else if c = ',' then some ([.comma], .plain)
  else if c = apostrophe then some ([], .string [])
  else if c = backquote then some ([], .name [])
  else if isWord c || c = '-' then some ([], .word [c])
  else none

def feed : Lexer → Char → Option (List Token × Lexer)
  | .plain, c => begin c
  | .word cs, c =>
    if isWord c then some ([], .word (cs ++ [c]))
    else (begin c).map fun r => (.word cs :: r.1, r.2)
  | .name cs, c =>
    if c = backquote then some ([.name cs], .plain) else some ([], .name (cs ++ [c]))
  | .string cs, c =>
    if c = apostrophe then some ([], .quote cs)
    else if c = backslash then some ([], .escape cs)
    else some ([], .string (cs ++ [c]))
  | .escape cs, c => some ([], .string (cs ++ unescape c))
  | .quote cs, c =>
    if c = apostrophe then some ([], .string (cs ++ [apostrophe]))
    else (begin c).map fun r => (.string cs :: r.1, r.2)

def lex : Lexer → List Char → Option (List Token × Lexer)
  | st, [] => some ([], st)
  | st, c :: cs => (feed st c).bind fun r => (lex r.2 cs).map fun r' => (r.1 ++ r'.1, r'.2)

/-- The tokens of a whole text. -/
def tokens (cs : List Char) : Option (List Token) :=
  (lex .plain cs).bind fun r =>
    match r.2 with
    | .plain => some r.1
    | .word cs => some (r.1 ++ [.word cs])
    | .quote cs => some (r.1 ++ [.string cs])
    | _ => none

/-- Strings next to each other are one string. -/
def joinStrings : List Token → List Token
  | [] => []
  | .string cs :: ts =>
    match joinStrings ts with
    | .string cs' :: ts => .string (cs ++ cs') :: ts
    | ts => .string cs :: ts
  | t :: ts => t :: joinStrings ts

/-! ## Parsing -/

inductive Literal
  | null
  | number (cs : List Char)
  | text (cs : List Char)
deriving DecidableEq, Repr

/-- Digits and points, perhaps behind a sign. -/
def isNumeral (cs : List Char) : Bool :=
  let digits := if cs.head? = some '-' then cs.tail else cs
  !digits.isEmpty && digits.all fun c => c.isDigit || c = '.'

def Token.literal : Token → Option Literal
  | .word cs =>
    if cs = "NULL".toList then some .null else if isNumeral cs then some (.number cs) else none
  | .string cs => some (.text cs)
  | _ => none

structure Insert where
  table : List Char
  columns : List (List Char)
  rows : List (List Literal)
deriving DecidableEq, Repr

def readNames : List (List Char) → List Token → Option (List (List Char) × List Token)
  | names, .name cs :: .comma :: ts => readNames (names ++ [cs]) ts
  | names, .name cs :: .rparen :: ts => some (names ++ [cs], ts)
  | _, _ => none

/-- Inside of a tuple, with its first values. -/
def readRows : List Literal → List Token → Option (List (List Literal))
  | row, t :: .comma :: ts => t.literal.bind fun l => readRows (row ++ [l]) ts
  | row, [t, .rparen] => t.literal.map fun l => [row ++ [l]]
  | row, t :: .rparen :: .comma :: .lparen :: ts =>
    t.literal.bind fun l => (readRows [] ts).map ((row ++ [l]) :: ·)
  | _, _ => none

def parse : List Token → Option Insert
  | .word insert :: .word into :: .name table :: .lparen :: ts =>
    if insert = "INSERT".toList ∧ into = "INTO".toList then
      (readNames [] ts).bind fun r =>
        match r.2 with
        | .word values :: .lparen :: ts =>
          if values = "VALUES".toList then (readRows [] ts).map (⟨table, r.1, ·⟩) else none
        | _ => none
    else none
  | _ => none

def readInsert (cs : List Char) : Option Insert := (tokens cs).bind fun ts => parse (joinStrings ts)

/-! ## Writing -/

/-- `mysql_real_escape_string`, of one character. -/
def escapeChar (c : Char) : List Char :=
  if c = Char.ofNat 0 then [backslash, '0']
  else if c = Char.ofNat 10 then [backslash, 'n']
  else if c = Char.ofNat 13 then [backslash, 'r']
  else if c = Char.ofNat 26 then [backslash, 'Z']
  else if c = backslash ∨ c = apostrophe ∨ c = Char.ofNat 34 then [backslash, c]
  else [c]

def escape (cs : List Char) : List Char := cs.flatMap escapeChar

/-- Nothing that means something else inside of a string. `\%` and `\_` stand for themselves. -/
def Pasteable : List Char → Bool
  | [] => true
  | c :: cs =>
    if c = apostrophe then false
    else if c = backslash then
      match cs with
      | [] => false
      | c' :: cs => (c' = '%' || c' = '_') && Pasteable cs
    else Pasteable cs

/-- A text between quotes. -/
def quoted (cs : List Char) : List Char := apostrophe :: (cs ++ [apostrophe])

def commaSep : List (List Char) → List Char
  | [] => []
  | [item] => item
  | item :: items => item ++ [',', ' '] ++ commaSep items

def tuple (items : List (List Char)) : List Char := '(' :: (commaSep items ++ [')'])

/-- The text up to the tuples. -/
def insertHeader (table : List Char) (columns : List (List Char)) : List Char :=
  "INSERT INTO ".toList ++ (backquote :: (table ++ [backquote])) ++ [' '] ++
    tuple (columns.map fun cs => backquote :: (cs ++ [backquote])) ++ " VALUES ".toList

/-! ## What the lexer makes of what is written -/

theorem lex_append (st : Lexer) (cs cs' : List Char) : lex st (cs ++ cs') =
    (lex st cs).bind fun r => (lex r.2 cs').map fun r' => (r.1 ++ r'.1, r'.2) := by
  induction cs generalizing st with
  | nil => simp [lex]
  | cons c cs ih =>
    rw [List.cons_append, lex, lex]
    cases feed st c with
    | none => rfl
    | some r =>
      simp only [Option.bind_some, ih]
      cases lex r.2 cs with
      | none => rfl
      | some r' =>
        simp only [Option.bind_some, Option.map_some]
        cases lex r'.2 cs' with
        | none => rfl
        | some r'' => simp

theorem lex_of {st st' st'' : Lexer} {cs cs' : List Char} {ts ts' : List Token}
    (h : lex st cs = some (ts, st')) (h' : lex st' cs' = some (ts', st'')) :
    lex st (cs ++ cs') = some (ts ++ ts', st'') := by
  rw [lex_append, h, Option.bind_some, h']
  rfl

theorem lex_word {cs w : List Char} (h : ∀ c ∈ cs, isWord c = true) :
    lex (.word w) cs = some ([], .word (w ++ cs)) := by
  induction cs generalizing w with
  | nil => simp [lex]
  | cons c cs ih =>
    have hc : isWord c = true := h c (List.mem_cons_self ..)
    have hrest := @ih (w ++ [c]) fun c' hc' => h c' (List.mem_cons_of_mem _ hc')
    simp [lex, feed, hc, hrest]

theorem lex_name {cs w : List Char} (h : backquote ∉ cs) :
    lex (.name w) cs = some ([], .name (w ++ cs)) := by
  induction cs generalizing w with
  | nil => simp [lex]
  | cons c cs ih =>
    obtain ⟨hc, hcs⟩ := not_or.mp (mt List.mem_cons.mpr h)
    have hrest := @ih (w ++ [c]) hcs
    simp [lex, feed, Ne.symm hc, hrest]

theorem lex_paste {cs : List Char} : ∀ {w : List Char}, Pasteable cs = true →
    lex (.string w) cs = some ([], .string (w ++ cs)) := by
  induction cs using Pasteable.induct with
  | case1 => simp [lex]
  | case2 cs =>
    intro w h
    rw [Pasteable.eq_def] at h
    simp at h
  | case3 hquote =>
    intro w h
    simp [Pasteable, hquote] at h
  | case4 c' cs hquote ih =>
    intro w h
    simp only [Pasteable, if_neg hquote, if_true, Bool.and_eq_true] at h
    have hrest := @ih (w ++ [backslash, c']) h.2
    have hself : unescape c' = [backslash, c'] := by
      rcases Bool.or_eq_true _ _ ▸ h.1 with hc | hc <;> (rw [of_decide_eq_true hc]; rfl)
    simp [lex, feed, hquote, hself, hrest]
  | case5 c cs hquote hslash ih =>
    intro w h
    rw [Pasteable.eq_def] at h
    simp only [if_neg hquote, if_neg hslash] at h
    have hrest := @ih (w ++ [c]) h
    simp [lex, feed, hquote, hslash, hrest]

theorem lex_escapeChar (w : List Char) (c : Char) :
    lex (.string w) (escapeChar c) = some ([], .string (w ++ [c])) := by
  unfold escapeChar
  split_ifs with h₀ h₁ h₂ h₃ h₄
  · rw [h₀]
    rfl
  · rw [h₁]
    rfl
  · rw [h₂]
    rfl
  · rw [h₃]
    rfl
  · rcases h₄ with rfl | rfl | rfl <;> rfl
  · simp only [not_or] at h₄
    simp [lex, feed, h₄.1, h₄.2.1]

theorem lex_escape (w cs : List Char) :
    lex (.string w) (escape cs) = some ([], .string (w ++ cs)) := by
  induction cs generalizing w with
  | nil => simp [escape, lex]
  | cons c cs ih =>
    have hrest := lex_of (lex_escapeChar w c) (ih (w ++ [c]))
    simpa [escape] using hrest

/-! ## Values that are read back -/

/-- The token of a value. -/
def Literal.token : Literal → Token
  | .null => .word "NULL".toList
  | .number cs => .word cs
  | .text cs => .string cs

/-- The token that ends here, unless it goes on. -/
def Lexer.held : Lexer → Option Token
  | .word cs => some (.word cs)
  | .quote cs => some (.string cs)
  | _ => none

structure Written (l : Literal) (cs : List Char) : Prop where
  held : ∃ st, lex .plain cs = some ([], st) ∧ st.held = some l.token
  literal : l.token.literal = some l

theorem written_null : Written .null "NULL".toList := ⟨⟨_, rfl, rfl⟩, rfl⟩

theorem isWord_of_digit {c : Char} (h : (c.isDigit || c = '.') = true) : isWord c = true := by
  unfold isWord Char.isAlphanum
  rcases Bool.or_eq_true _ _ ▸ h with h | h
  · simp [h]
  · simp [of_decide_eq_true h]

/-- A numeral is a word of its own. -/
theorem written_number {cs : List Char} (h : isNumeral cs = true) : Written (.number cs) cs := by
  have hword : ∀ c : Char, (c.isDigit || c = '.') = true →
      feed .plain c = some ([], .word [c]) := by
    intro c hc
    have hw := isWord_of_digit hc
    have hne : ∀ c' : Char, isWord c' = false → c ≠ c' := by
      rintro c' hc' rfl
      simp [hw] at hc'
    have hblank : isBlank c = false := by
      simp [isBlank, hne ' ' (by decide), hne (Char.ofNat 9) (by decide),
        hne (Char.ofNat 10) (by decide), hne (Char.ofNat 13) (by decide)]
    simp [feed, begin, hblank, hne '(' (by decide), hne ')' (by decide), hne ',' (by decide),
      hne apostrophe (by decide), hne backquote (by decide), hw]
  have hliteral : (Token.word cs).literal = some (.number cs) := by
    have hnull : cs ≠ "NULL".toList := by
      rintro rfl
      exact absurd h (by decide)
    simp only [Token.literal, if_neg hnull, h, if_true]
  refine ⟨⟨.word cs, ?_, rfl⟩, hliteral⟩
  cases cs with
  | nil => exact absurd h (by decide)
  | cons c cs =>
    unfold isNumeral at h
    by_cases hminus : c = '-'
    · subst hminus
      simp only [List.head?_cons, if_true, List.tail_cons, Bool.and_eq_true, List.all_eq_true] at h
      have hrest := @lex_word cs ['-'] fun c hc => isWord_of_digit (h.2 c hc)
      rw [lex, show feed .plain '-' = some ([], .word ['-']) from rfl, Option.bind_some, hrest]
      rfl
    · have hhead : ¬(c :: cs).head? = some '-' := by simpa using hminus
      simp only [if_neg hhead, Bool.and_eq_true, List.all_eq_true] at h
      have hrest := @lex_word cs [c] fun c' hc' =>
        isWord_of_digit (h.2 c' (List.mem_cons_of_mem _ hc'))
      rw [lex, hword c (h.2 c (List.mem_cons_self ..)), Option.bind_some, hrest]
      rfl

/-- A string in quotes, whatever stands between them for it. -/
theorem written_quoted {s cs : List Char} (h : lex (.string []) cs = some ([], .string s)) :
    Written (.text s) (quoted cs) := by
  refine ⟨⟨.quote s, ?_, rfl⟩, rfl⟩
  have hend := lex_of h (show lex (.string s) [apostrophe] = some ([], .quote s) from rfl)
  unfold quoted
  rw [lex, show feed .plain apostrophe = some ([], .string []) from rfl, Option.bind_some, hend]
  rfl

theorem written_paste {cs : List Char} (h : Pasteable cs = true) : Written (.text cs) (quoted cs) :=
  written_quoted (lex_paste h)

theorem written_escape (cs : List Char) : Written (.text cs) (quoted (escape cs)) :=
  written_quoted (lex_escape [] cs)

/-! ## Tuples -/

/-- The tokens of the values of a tuple, up to its end. -/
def rowTokens : List Literal → List Token
  | [] => [.rparen]
  | [l] => [l.token, .rparen]
  | l :: ls => l.token :: .comma :: rowTokens ls

/-- The tokens behind the first parenthesis. -/
def rowsTokens : List (List Literal) → List Token
  | [] => []
  | [row] => rowTokens row
  | row :: rows => rowTokens row ++ .comma :: .lparen :: rowsTokens rows

theorem lex_held {st : Lexer} {t t' : Token} {c : Char} (h : st.held = some t)
    (hc : c = ',' ∧ t' = .comma ∨ c = ')' ∧ t' = .rparen) (cs : List Char) :
    lex st (c :: cs) = (lex .plain cs).map fun r => (t :: t' :: r.1, r.2) := by
  have hfeed : feed st c = some ([t, t'], .plain) := by
    cases st with
    | word w =>
      obtain rfl := Option.some.inj h
      rcases hc with ⟨rfl, rfl⟩ | ⟨rfl, rfl⟩ <;> rfl
    | quote w =>
      obtain rfl := Option.some.inj h
      rcases hc with ⟨rfl, rfl⟩ | ⟨rfl, rfl⟩ <;> rfl
    | plain => cases h
    | name w => cases h
    | string w => cases h
    | escape w => cases h
  rw [lex, hfeed]
  rfl

theorem lex_items {row : List Literal} {items : List (List Char)}
    (h : List.Forall₂ Written row items) (hne : items ≠ []) :
    lex .plain (commaSep items ++ [')']) = some (rowTokens row, .plain) := by
  induction h with
  | nil => exact absurd rfl hne
  | @cons l item ls items hl hls ih =>
    obtain ⟨st, hlex, hheld⟩ := hl.held
    cases hls with
    | nil =>
      have hend := lex_held hheld (Or.inr ⟨rfl, rfl⟩) []
      exact lex_of hlex hend
    | @cons l' item' ls items hl' hls =>
      have hrest := ih (by simp)
      have hcomma := lex_held hheld (Or.inl ⟨rfl, rfl⟩)
        (' ' :: (commaSep (item' :: items) ++ [')']))
      have hblank : lex .plain (' ' :: (commaSep (item' :: items) ++ [')'])) =
          some (rowTokens (l' :: ls), .plain) := by
        rw [lex, show feed .plain ' ' = some ([], .plain) from rfl, Option.bind_some, hrest]
        rfl
      rw [hblank] at hcomma
      have hall := lex_of hlex hcomma
      simpa [commaSep, rowTokens] using hall

theorem lex_tuples {rows : List (List Literal)} {items : List (List (List Char))}
    (h : List.Forall₂ (List.Forall₂ Written) rows items) (hrows : rows ≠ [])
    (hne : ∀ row ∈ rows, row ≠ []) :
    lex .plain (commaSep (items.map tuple)) = some (.lparen :: rowsTokens rows, .plain) := by
  have htuple : ∀ {row : List Literal} {items : List (List Char)},
      List.Forall₂ Written row items → row ≠ [] →
        lex .plain (tuple items) = some (.lparen :: rowTokens row, .plain) := by
    intro row items hrow hne
    have hitems : items ≠ [] := by
      rintro rfl
      cases hrow
      exact hne rfl
    unfold tuple
    rw [lex, show feed .plain '(' = some ([.lparen], .plain) from rfl, Option.bind_some,
      lex_items hrow hitems]
    rfl
  induction h with
  | nil => exact absurd rfl hrows
  | @cons row item rows items hrow hrest ih =>
    have hfirst := htuple hrow (hne row (List.mem_cons_self ..))
    cases hrest with
    | nil => exact hfirst
    | @cons row' item' rows items hrow' hrest =>
      have htail := ih (by simp) fun row hmem => hne row (List.mem_cons_of_mem _ hmem)
      have hsep : lex .plain [',', ' '] = some ([.comma], .plain) := rfl
      have hall := lex_of hfirst (lex_of hsep htail)
      simpa [commaSep, rowsTokens] using hall

/-- The literals of a row before its last one are read one by one. -/
theorem readRows_concat {row : List Literal} {last : Literal} (ts : List Token) :
    ∀ first : List Literal, (∀ l ∈ row, l.token.literal = some l) →
      readRows first (rowTokens (row ++ [last]) ++ ts) =
        readRows (first ++ row) (last.token :: .rparen :: ts) := by
  induction row with
  | nil =>
    intro first _
    simp [rowTokens]
  | cons l ls ih =>
    intro first hl
    have hlit := hl l (List.mem_cons_self ..)
    have hrest := ih (first ++ [l]) fun l hmem => hl l (List.mem_cons_of_mem _ hmem)
    have htokens : rowTokens (l :: (ls ++ [last])) =
        l.token :: .comma :: rowTokens (ls ++ [last]) := by
      cases ls <;> rfl
    rw [List.cons_append, htokens]
    simp [readRows, hlit, hrest]

theorem readRows_last {row : List Literal} (hne : row ≠ [])
    (hl : ∀ l ∈ row, l.token.literal = some l) : readRows [] (rowTokens row) = some [row] := by
  obtain ⟨row, last, rfl⟩ := (List.eq_nil_or_concat' row).resolve_left hne
  have hlit := hl last (by simp)
  have hread := @readRows_concat row last [] [] fun l hmem => hl l (List.mem_append_left _ hmem)
  rw [List.append_nil] at hread
  rw [hread]
  simp [readRows, hlit]

theorem readRows_more {row : List Literal} (ts : List Token) (hne : row ≠ [])
    (hl : ∀ l ∈ row, l.token.literal = some l) :
    readRows [] (rowTokens row ++ .comma :: .lparen :: ts) = (readRows [] ts).map (row :: ·) := by
  obtain ⟨row, last, rfl⟩ := (List.eq_nil_or_concat' row).resolve_left hne
  have hlit := hl last (by simp)
  rw [readRows_concat _ _ fun l hmem => hl l (List.mem_append_left _ hmem)]
  simp [readRows, hlit]

theorem readRows_rowsTokens {rows : List (List Literal)} (hrows : rows ≠ [])
    (hne : ∀ row ∈ rows, row ≠ []) (hl : ∀ row ∈ rows, ∀ l ∈ row, l.token.literal = some l) :
    readRows [] (rowsTokens rows) = some rows := by
  induction rows with
  | nil => exact absurd rfl hrows
  | cons row rows ih =>
    have hrow := hne row (List.mem_cons_self ..)
    have hlit := hl row (List.mem_cons_self ..)
    cases rows with
    | nil => exact readRows_last hrow hlit
    | cons row' rows =>
      have hrest := ih (by simp) (fun row hmem => hne row (List.mem_cons_of_mem _ hmem))
        fun row hmem => hl row (List.mem_cons_of_mem _ hmem)
      have hmore := readRows_more (rowsTokens (row' :: rows)) hrow hlit
      rw [hrest] at hmore
      exact hmore

/-! ## Names -/

def nameTokens : List (List Char) → List Token
  | [] => [.rparen]
  | [cs] => [.name cs, .rparen]
  | cs :: names => .name cs :: .comma :: nameTokens names

theorem lex_backquoted {cs : List Char} (h : backquote ∉ cs) :
    lex .plain (backquote :: (cs ++ [backquote])) = some ([.name cs], .plain) := by
  have hend := lex_of (lex_name (w := []) h)
    (show lex (.name cs) [backquote] = some ([.name cs], .plain) from rfl)
  rw [lex, show feed .plain backquote = some ([], .name []) from rfl, Option.bind_some, hend]
  rfl

theorem lex_names {names : List (List Char)} (h : ∀ cs ∈ names, backquote ∉ cs)
    (hne : names ≠ []) :
    lex .plain (commaSep (names.map fun cs => backquote :: (cs ++ [backquote])) ++ [')']) =
      some (nameTokens names, .plain) := by
  induction names with
  | nil => exact absurd rfl hne
  | cons cs names ih =>
    have hfirst := lex_backquoted (h cs (List.mem_cons_self ..))
    cases names with
    | nil => exact lex_of hfirst (show lex .plain [')'] = some ([.rparen], .plain) from rfl)
    | cons cs' names =>
      have hrest := ih (fun cs hmem => h cs (List.mem_cons_of_mem _ hmem)) (by simp)
      have hsep : lex .plain [',', ' '] = some ([.comma], .plain) := rfl
      have hall := lex_of hfirst (lex_of hsep hrest)
      simpa [commaSep, nameTokens] using hall

theorem readNames_nameTokens {names : List (List Char)} (hne : names ≠ []) (ts : List Token) :
    ∀ first, readNames first (nameTokens names ++ ts) = some (first ++ names, ts) := by
  induction names with
  | nil => exact absurd rfl hne
  | cons cs names ih =>
    intro first
    cases names with
    | nil => simp [nameTokens, readNames]
    | cons cs' names =>
      have hrest := ih (by simp) (first ++ [cs])
      simpa [nameTokens, readNames] using hrest

/-! ## No two strings stand next to each other -/

theorem joinStrings_cons {t : Token} (h : ∀ cs, t ≠ .string cs) (ts : List Token) :
    joinStrings (t :: ts) = t :: joinStrings ts := by
  cases t with
  | string cs => exact absurd rfl (h cs)
  | word cs => rfl
  | name cs => rfl
  | lparen => rfl
  | rparen => rfl
  | comma => rfl

theorem joinStrings_cons_cons (t t' : Token) (h : ∀ cs, t' ≠ .string cs)
    (ts : List Token) : joinStrings (t :: t' :: ts) = t :: t' :: joinStrings ts := by
  have hrest := joinStrings_cons h ts
  by_cases ht : ∃ cs, t = .string cs
  · obtain ⟨cs, rfl⟩ := ht
    rw [joinStrings, hrest]
    cases t' with
    | string cs' => exact absurd rfl (h cs')
    | word cs' => rfl
    | name cs' => rfl
    | lparen => rfl
    | rparen => rfl
    | comma => rfl
  · rw [joinStrings_cons (fun cs hcs => ht ⟨cs, hcs⟩), hrest]

theorem joinStrings_rowTokens (row : List Literal) (ts : List Token) :
    joinStrings (rowTokens row ++ ts) = rowTokens row ++ joinStrings ts := by
  induction row with
  | nil => rfl
  | cons l ls ih =>
    cases ls with
    | nil => exact joinStrings_cons_cons l.token _ (fun cs => by simp) ts
    | cons l' ls =>
      have hsep := joinStrings_cons_cons l.token .comma (fun cs => by simp)
        (rowTokens (l' :: ls) ++ ts)
      simpa [rowTokens, ih] using hsep

theorem joinStrings_rowsTokens (rows : List (List Literal)) :
    joinStrings (rowsTokens rows) = rowsTokens rows := by
  induction rows with
  | nil => rfl
  | cons row rows ih =>
    cases rows with
    | nil => simpa [rowsTokens, joinStrings] using joinStrings_rowTokens row []
    | cons row' rows =>
      have hsep := joinStrings_cons_cons .comma .lparen (fun cs => by simp)
        (rowsTokens (row' :: rows))
      rw [ih] at hsep
      rw [rowsTokens, joinStrings_rowTokens, hsep]
      exact List.cons_ne_nil _ _

theorem joinStrings_nameTokens (names : List (List Char)) (ts : List Token) :
    joinStrings (nameTokens names ++ ts) = nameTokens names ++ joinStrings ts := by
  induction names with
  | nil => rfl
  | cons cs names ih =>
    cases names with
    | nil => rfl
    | cons cs' names =>
      have hsep := joinStrings_cons_cons (.name cs) .comma (fun cs => by simp)
        (nameTokens (cs' :: names) ++ ts)
      simpa [nameTokens, ih] using hsep

/-! ## A statement -/

theorem literal_row {row : List Literal} {items : List (List Char)}
    (h : List.Forall₂ Written row items) : ∀ l ∈ row, l.token.literal = some l := by
  induction h with
  | nil => simp
  | cons hl _ ih =>
    intro l hmem
    rcases List.mem_cons.mp hmem with rfl | hmem
    · exact hl.literal
    · exact ih l hmem

theorem literal_rows {rows : List (List Literal)} {items : List (List (List Char))}
    (h : List.Forall₂ (List.Forall₂ Written) rows items) :
    ∀ row ∈ rows, ∀ l ∈ row, l.token.literal = some l := by
  induction h with
  | nil => simp
  | cons hrow _ ih =>
    intro row hmem
    rcases List.mem_cons.mp hmem with rfl | hmem
    · exact literal_row hrow
    · exact ih row hmem

/-- The text of a statement. -/
def insertText (table : List Char) (columns : List (List Char)) (items : List (List (List Char))) :
    List Char := insertHeader table columns ++ commaSep (items.map tuple)

/-- **Written values are read back.** -/
theorem readInsert_insertText {table : List Char} {columns : List (List Char)}
    {rows : List (List Literal)} {items : List (List (List Char))} (htable : backquote ∉ table)
    (hcolumns : ∀ cs ∈ columns, backquote ∉ cs) (hcolumns' : columns ≠ []) (hrows : rows ≠ [])
    (hne : ∀ row ∈ rows, row ≠ []) (h : List.Forall₂ (List.Forall₂ Written) rows items) :
    readInsert (insertText table columns items) = some ⟨table, columns, rows⟩ := by
  have hinsert : lex .plain "INSERT INTO ".toList =
      some ([.word "INSERT".toList, .word "INTO".toList], .plain) := by decide +kernel
  have hvalues : lex .plain " VALUES ".toList = some ([.word "VALUES".toList], .plain) := by
    decide +kernel
  have hblank : lex .plain [' ', '('] = some ([.lparen], .plain) := rfl
  have hhead := lex_of hinsert (lex_of (lex_backquoted htable) (lex_of hblank
    (lex_of (lex_names hcolumns hcolumns') hvalues)))
  have hall := lex_of hhead (lex_tuples h hrows hne)
  have htext : insertText table columns items =
      "INSERT INTO ".toList ++ (backquote :: (table ++ [backquote]) ++ ([' ', '('] ++
        (commaSep (columns.map fun cs => backquote :: (cs ++ [backquote])) ++ [')'] ++
          " VALUES ".toList))) ++ commaSep (items.map tuple) := by
    unfold insertText insertHeader
    generalize "INSERT INTO ".toList = insert
    generalize " VALUES ".toList = values
    simp [tuple]
  have hparse : parse (joinStrings ([.word "INSERT".toList, .word "INTO".toList] ++
      ([.name table] ++ ([.lparen] ++ (nameTokens columns ++ [.word "VALUES".toList]))) ++
        .lparen :: rowsTokens rows)) = some ⟨table, columns, rows⟩ := by
    have hword : ∀ cs cs', Token.word cs ≠ .string cs' := fun _ _ => by simp
    simp only [List.cons_append, List.nil_append, List.append_assoc]
    rw [joinStrings_cons (hword _), joinStrings_cons (hword _), joinStrings_cons (by simp),
      joinStrings_cons (by simp), joinStrings_nameTokens, joinStrings_cons (hword _),
      joinStrings_cons (by simp), joinStrings_rowsTokens]
    unfold parse
    dsimp only
    rw [if_pos ⟨rfl, rfl⟩, readNames_nameTokens hcolumns', Option.bind_some]
    dsimp only
    rw [if_pos rfl, readRows_rowsTokens hrows hne (literal_rows h)]
    rfl
  unfold readInsert tokens
  rw [htext, hall, Option.bind_some]
  exact hparse

end Sql

end ViabtcExchange
