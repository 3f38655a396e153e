import ViabtcExchange.HistorySql

/-!
# How long a JSON value is as a text

`json_dumps` belongs to jansson. Of its texts only the length is needed, and that is documented:
items are separated by a comma and a blank, keys and values by a colon and a blank; in strings the
quote, the backslash and the control characters are escaped, everything else is written as it is in
UTF-8. `Json.dumpSize` counts the bytes, and a `JsonDumps` is a printer of that length. How many
bytes a real number takes is left to the printer.

`plainDumps` is one that writes the members of an object in the order they are in.
-/

namespace ViabtcExchange

/-! ## Lengths -/

/-- The control characters that have a short escape, with it: quote, backslash, `\b`, `\f`, `\n`,
`\r` and `\t`. -/
def shortEscapes : List (ℕ × Char) :=
  [(34, Char.ofNat 34), (92, Char.ofNat 92), (8, 'b'), (12, 'f'), (10, 'n'), (13, 'r'), (9, 't')]

/-- The bytes of a character in a string; the other control characters take `\u00xx`. -/
def charSize (c : Char) : ℕ :=
  if (shortEscapes.lookup c.toNat).isSome then 2
  else if c.toNat < 32 then 6
  else c.utf8Size

def charsSize (cs : List Char) : ℕ := (cs.map charSize).sum

/-- A string, with its quotes. -/
def stringSize (s : String) : ℕ := 2 + charsSize s.toList

def integerSize (n : ℤ) : ℕ := (if n < 0 then 1 else 0) + (showNat n.natAbs).length

mutual

/-- The bytes `json_dumps` writes, given those of the real numbers. -/
def Json.dumpSize (realSize : ℚ → ℕ) : Json → ℕ
  | .null => 4
  | .bool b => if b then 4 else 5
  | .integer n => integerSize n
  | .real x => realSize x
  | .string s => stringSize s
  | .array vs => 2 + elementsSize realSize vs
  | .object kvs => 2 + membersSize realSize kvs

def elementsSize (realSize : ℚ → ℕ) : List Json → ℕ
  | [] => 0
  | [v] => v.dumpSize realSize
  | v :: w :: vs => v.dumpSize realSize + 2 + elementsSize realSize (w :: vs)

def membersSize (realSize : ℚ → ℕ) : List (String × Json) → ℕ
  | [] => 0
  | [(k, v)] => stringSize k + 2 + v.dumpSize realSize
  | (k, v) :: kv :: kvs =>
    stringSize k + 2 + v.dumpSize realSize + 2 + membersSize realSize (kv :: kvs)

end

example : (Json.object [("a", .integer 12), ("b", .array [.null, .string "x"])]).dumpSize
    (fun _ => 0) = 27 := by decide

/-- `json_dumps`, with `JSON_SORT_KEYS` or without. -/
structure JsonDumps where
  realSize : ℚ → ℕ
  dumps : Bool → Json → List Char
  size : ∀ sortKeys v, utf8Size (dumps sortKeys v) = v.dumpSize realSize

/-! ## A printer -/

/-- A hexadecimal digit. -/
def hexDigit (n : ℕ) : Char := if n < 10 then Char.ofNat (48 + n) else Char.ofNat (55 + n)

def escapeChar (c : Char) : List Char :=
  match shortEscapes.lookup c.toNat with
  | some d => [Char.ofNat 92, d]
  | none =>
    if c.toNat < 32 then
      [Char.ofNat 92, 'u', '0', '0', hexDigit (c.toNat / 16), hexDigit (c.toNat % 16)]
    else [c]

def stringText (s : String) : List Char :=
  Char.ofNat 34 :: (s.toList.flatMap escapeChar ++ [Char.ofNat 34])

def integerText (n : ℤ) : List Char := (if n < 0 then ['-'] else []) ++ showNat n.natAbs

mutual

def Json.plainText (realText : ℚ → List Char) : Json → List Char
  | .null => "null".toList
  | .bool b => if b then "true".toList else "false".toList
  | .integer n => integerText n
  | .real x => realText x
  | .string s => stringText s
  | .array vs => '[' :: (elementsText realText vs ++ [']'])
  | .object kvs => Char.ofNat 123 :: (membersText realText kvs ++ [Char.ofNat 125])

def elementsText (realText : ℚ → List Char) : List Json → List Char
  | [] => []
  | [v] => v.plainText realText
  | v :: w :: vs => v.plainText realText ++ ", ".toList ++ elementsText realText (w :: vs)

def membersText (realText : ℚ → List Char) : List (String × Json) → List Char
  | [] => []
  | [(k, v)] => stringText k ++ ": ".toList ++ v.plainText realText
  | (k, v) :: kv :: kvs =>
    stringText k ++ ": ".toList ++ v.plainText realText ++ ", ".toList ++
      membersText realText (kv :: kvs)

end

@[simp] theorem utf8Size_nil : utf8Size [] = 0 := rfl

@[simp] theorem utf8Size_cons (c : Char) (cs : List Char) :
    utf8Size (c :: cs) = c.utf8Size + utf8Size cs := by simp [utf8Size]

@[simp] theorem utf8Size_append (cs ds : List Char) :
    utf8Size (cs ++ ds) = utf8Size cs + utf8Size ds := by simp [utf8Size]

theorem utf8Size_of_lt {c : Char} (h : c.toNat < 128) : c.utf8Size = 1 := by
  refine Char.utf8Size_eq_one_iff.mpr (UInt32.le_iff_toNat_le.mpr ?_)
  exact Nat.le_of_lt_succ h

theorem utf8Size_showNat (n : ℕ) : utf8Size (showNat n) = (showNat n).length := by
  have hone : ∀ c ∈ showNat n, c.utf8Size = 1 := fun c hc => by
    have hdigit := isDigit_showNat hc
    simp only [Char.isDigit, ge_iff_le, Bool.and_eq_true, decide_eq_true_eq] at hdigit
    have hle : c.toNat ≤ 57 := UInt32.le_iff_toNat_le.mp hdigit.2
    exact utf8Size_of_lt (by omega)
  rw [utf8Size, List.map_congr_left hone, List.map_const', List.sum_replicate, smul_eq_mul, mul_one]

theorem utf8Size_integerText (n : ℤ) : utf8Size (integerText n) = integerSize n := by
  unfold integerText integerSize
  rw [utf8Size_append, utf8Size_showNat]
  split_ifs <;> rfl

theorem utf8Size_hexDigit {n : ℕ} (h : n < 16) : (hexDigit n).utf8Size = 1 := by
  revert n
  decide

theorem utf8Size_escapeChar (c : Char) : utf8Size (escapeChar c) = charSize c := by
  have hshort : ∀ p ∈ shortEscapes, p.2.utf8Size = 1 := by decide
  unfold escapeChar charSize
  cases hd : shortEscapes.lookup c.toNat with
  | some d =>
    obtain ⟨p, hp, rfl⟩ : ∃ p ∈ shortEscapes, p.2 = d := by
      obtain ⟨l, l', heq, -⟩ := List.lookup_eq_some_iff.mp hd
      exact ⟨(c.toNat, d), by rw [heq]; simp, rfl⟩
    simp [hshort p hp]
    rfl
  | none =>
    by_cases hc : c.toNat < 32
    · simp only [if_pos hc]
      have h1 : c.toNat / 16 < 16 := by omega
      have h2 : c.toNat % 16 < 16 := Nat.mod_lt _ (by norm_num)
      simp [utf8Size_hexDigit h1, utf8Size_hexDigit h2]
      rfl
    · simp [if_neg hc]

theorem utf8Size_stringText (s : String) : utf8Size (stringText s) = stringSize s := by
  have hchars : utf8Size (s.toList.flatMap escapeChar) = charsSize s.toList := by
    unfold charsSize
    induction s.toList with
    | nil => rfl
    | cons c cs ih =>
      rw [List.flatMap_cons, utf8Size_append, utf8Size_escapeChar, ih, List.map_cons,
        List.sum_cons]
  have hquote : (Char.ofNat 34).utf8Size = 1 := rfl
  unfold stringText stringSize
  rw [utf8Size_cons, utf8Size_append, hchars, utf8Size_cons, utf8Size_nil, hquote]
  ring

mutual

theorem utf8Size_plainText (realText : ℚ → List Char) : ∀ v : Json,
    utf8Size (v.plainText realText) = v.dumpSize fun x => utf8Size (realText x)
  | .null => rfl
  | .bool b => by cases b <;> rfl
  | .integer n => by
    rw [Json.plainText, Json.dumpSize, utf8Size_integerText]
  | .real x => by
    rw [Json.plainText, Json.dumpSize]
  | .string s => by
    rw [Json.plainText, Json.dumpSize, utf8Size_stringText]
  | .array vs => by
    rw [Json.plainText, Json.dumpSize, utf8Size_cons, utf8Size_append, utf8Size_elementsText,
      add_comm, add_comm 2, add_assoc]
    rfl
  | .object kvs => by
    rw [Json.plainText, Json.dumpSize, utf8Size_cons, utf8Size_append, utf8Size_membersText,
      add_comm, add_comm 2, add_assoc]
    rfl

theorem utf8Size_elementsText (realText : ℚ → List Char) : ∀ vs : List Json,
    utf8Size (elementsText realText vs) = elementsSize (fun x => utf8Size (realText x)) vs
  | [] => rfl
  | [v] => by rw [elementsText, elementsSize, utf8Size_plainText]
  | v :: w :: vs => by
    rw [elementsText, elementsSize, utf8Size_append, utf8Size_append, utf8Size_plainText,
      utf8Size_elementsText]
    rfl

theorem utf8Size_membersText (realText : ℚ → List Char) : ∀ kvs : List (String × Json),
    utf8Size (membersText realText kvs) = membersSize (fun x => utf8Size (realText x)) kvs
  | [] => rfl
  | [(k, v)] => by
    rw [membersText, membersSize, utf8Size_append, utf8Size_append, utf8Size_stringText,
      utf8Size_plainText]
    rfl
  | (k, v) :: kv :: kvs => by
    rw [membersText, membersSize, utf8Size_append, utf8Size_append, utf8Size_append,
      utf8Size_append, utf8Size_stringText, utf8Size_plainText, utf8Size_membersText]
    rfl

end

/-- Members in the order they are in, and real numbers as they are given. -/
def plainDumps (realText : ℚ → List Char) : JsonDumps where
  realSize x := utf8Size (realText x)
  dumps _ v := v.plainText realText
  size _ v := utf8Size_plainText realText v

end ViabtcExchange
