import Mathlib.Tactic

/-!
# Numbers in bytes, and frames in a stream of bytes

A number of `n` bytes is kept in one of two orders (`ByteOrder`), and read back by the same order.

A stream carries items one after the other, each as a block of bytes. Whoever reads it has, at any
time, the blocks of the first items and the beginning of the next one (`exists_blocks`). An item is
handled when its block is complete, until the handler stops (`handleAll`, `handled`).
-/

namespace ViabtcExchange

/-! ## Numbers in bytes -/

inductive ByteOrder where
  | little
  | big
deriving DecidableEq, Repr

namespace ByteOrder

/-- The number whose bytes are `l`, the lowest first. -/
def ofLE : List UInt8 → ℕ
  | [] => 0
  | b :: l => b.toNat + 256 * ofLE l

/-- The `n` lowest bytes of a number, the lowest first. -/
def toLE : ℕ → ℕ → List UInt8
  | 0, _ => []
  | n + 1, x => UInt8.ofNat x :: toLE n (x / 256)

def decode : ByteOrder → List UInt8 → ℕ
  | little, l => ofLE l
  | big, l => ofLE l.reverse

def encode : ByteOrder → ℕ → ℕ → List UInt8
  | little, n, x => toLE n x
  | big, n, x => (toLE n x).reverse

theorem length_toLE (n x : ℕ) : (toLE n x).length = n := by
  induction n generalizing x with
  | zero => rfl
  | succ n ih => rw [toLE, List.length_cons, ih]

theorem ofLE_toLE {n x : ℕ} (h : x < 256 ^ n) : ofLE (toLE n x) = x := by
  induction n generalizing x with
  | zero =>
    rw [pow_zero] at h
    have hx : x = 0 := by omega
    rw [hx]
    rfl
  | succ n ih =>
    have hdiv : x / 256 < 256 ^ n := by
      rw [pow_succ] at h
      exact Nat.div_lt_of_lt_mul (by omega)
    rw [toLE, ofLE, ih hdiv, UInt8.toNat_ofNat']
    omega

theorem ofLE_lt (l : List UInt8) : ofLE l < 256 ^ l.length := by
  induction l with
  | nil => decide
  | cons b l ih =>
    have hb := b.toNat_lt
    rw [ofLE, List.length_cons, pow_succ]
    omega

theorem toLE_ofLE (l : List UInt8) : toLE l.length (ofLE l) = l := by
  induction l with
  | nil => rfl
  | cons b l ih =>
    have hb := b.toNat_lt
    have hdiv : (b.toNat + 256 * ofLE l) / 256 = ofLE l := by omega
    rw [List.length_cons, ofLE, toLE, hdiv, ih]
    congr 1
    apply UInt8.toNat_inj.mp
    rw [UInt8.toNat_ofNat']
    omega

@[simp] theorem length_encode (order : ByteOrder) (n x : ℕ) : (order.encode n x).length = n := by
  cases order with
  | little => exact length_toLE n x
  | big => rw [encode, List.length_reverse, length_toLE]

theorem decode_encode (order : ByteOrder) {n x : ℕ} (h : x < 256 ^ n) :
    order.decode (order.encode n x) = x := by
  cases order with
  | little => exact ofLE_toLE h
  | big => rw [encode, decode, List.reverse_reverse, ofLE_toLE h]

theorem decode_lt (order : ByteOrder) (l : List UInt8) : order.decode l < 256 ^ l.length := by
  cases order with
  | little => exact ofLE_lt l
  | big =>
    have hlt := ofLE_lt l.reverse
    rwa [List.length_reverse] at hlt

theorem encode_decode (order : ByteOrder) {n : ℕ} {l : List UInt8} (h : l.length = n) :
    order.encode n (order.decode l) = l := by
  subst h
  cases order with
  | little => exact toLE_ofLE l
  | big =>
    have hrev := toLE_ofLE l.reverse
    rw [List.length_reverse] at hrev
    rw [encode, decode, hrev, List.reverse_reverse]

end ByteOrder

/-! ## Blocks -/

section Blocks

variable {α ι τ : Type}

/-- `tail` is a beginning of the block of the first of `items`, and not all of it. -/
def Begun (encode : ι → List α) (items : List ι) (tail : List α) : Prop :=
  tail = [] ∨ ∃ i rest, items = i :: rest ∧ tail <+: encode i ∧ tail.length < (encode i).length

/-- What has been read of a stream of blocks: whole ones, and the beginning of the next. -/
theorem exists_blocks (encode : ι → List α) (items : List ι) (read later : List α)
    (h : read ++ later = items.flatMap encode) :
    ∃ done rest tail, items = done ++ rest ∧ read = done.flatMap encode ++ tail ∧
      tail ++ later = rest.flatMap encode ∧ Begun encode rest tail := by
  induction items generalizing read with
  | nil =>
    obtain ⟨rfl, rfl⟩ := List.append_eq_nil_iff.mp h
    exact ⟨[], [], [], rfl, rfl, rfl, .inl rfl⟩
  | cons i items ih =>
    rw [List.flatMap_cons] at h
    by_cases hlen : read.length < (encode i).length
    · refine ⟨[], i :: items, read, rfl, rfl, h, .inr ⟨i, items, rfl, ?_, hlen⟩⟩
      exact List.prefix_of_prefix_length_le ⟨later, h⟩ ⟨_, rfl⟩ hlen.le
    · obtain ⟨read', rfl⟩ : encode i <+: read :=
        List.prefix_of_prefix_length_le ⟨_, rfl⟩ ⟨later, h⟩ (not_lt.mp hlen)
      rw [List.append_assoc] at h
      obtain ⟨done, rest, tail, rfl, rfl, hlater, hbegun⟩ := ih read' (List.append_cancel_left h)
      refine ⟨i :: done, rest, tail, rfl, ?_, hlater, hbegun⟩
      rw [List.flatMap_cons, List.append_assoc]

/-! ## Handling items until the handler stops -/

/-- Hand the items over one after the other. The handler says if it wants more. -/
def handleAll (handle : τ → ι → τ × Bool) : τ → List ι → τ × Bool
  | t, [] => (t, true)
  | t, i :: items =>
    match handle t i with
    | (t', true) => handleAll handle t' items
    | (t', false) => (t', false)

/-- The items the handler is given. -/
def handled (handle : τ → ι → τ × Bool) : τ → List ι → List ι
  | _, [] => []
  | t, i :: items =>
    match handle t i with
    | (t', true) => i :: handled handle t' items
    | (_, false) => [i]

variable {handle : τ → ι → τ × Bool} {t : τ} {i : ι} {items later : List ι}

theorem handleAll_cons_of_more (h : (handle t i).2 = true) :
    handleAll handle t (i :: items) = handleAll handle (handle t i).1 items := by
  rcases hi : handle t i with ⟨t', more⟩
  rw [hi] at h
  subst h
  rw [handleAll, hi]

theorem handleAll_cons_of_stop (h : (handle t i).2 = false) :
    handleAll handle t (i :: items) = ((handle t i).1, false) := by
  rcases hi : handle t i with ⟨t', more⟩
  rw [hi] at h
  subst h
  rw [handleAll, hi]

theorem handled_cons_of_more (h : (handle t i).2 = true) :
    handled handle t (i :: items) = i :: handled handle (handle t i).1 items := by
  rcases hi : handle t i with ⟨t', more⟩
  rw [hi] at h
  subst h
  rw [handled, hi]

theorem handled_cons_of_stop (h : (handle t i).2 = false) :
    handled handle t (i :: items) = [i] := by
  rcases hi : handle t i with ⟨t', more⟩
  rw [hi] at h
  subst h
  rw [handled, hi]

theorem handleAll_append_of_more (h : (handleAll handle t items).2 = true) :
    handleAll handle t (items ++ later) =
      handleAll handle (handleAll handle t items).1 later := by
  induction items generalizing t with
  | nil => rfl
  | cons i items ih =>
    cases hi : (handle t i).2 with
    | false =>
      rw [handleAll_cons_of_stop hi] at h
      cases h
    | true =>
      rw [handleAll_cons_of_more hi] at h
      rw [List.cons_append, handleAll_cons_of_more hi, handleAll_cons_of_more hi, ih h]

theorem handleAll_append_of_stop (h : (handleAll handle t items).2 = false) :
    handleAll handle t (items ++ later) = handleAll handle t items := by
  induction items generalizing t with
  | nil => cases h
  | cons i items ih =>
    cases hi : (handle t i).2 with
    | false => rw [List.cons_append, handleAll_cons_of_stop hi, handleAll_cons_of_stop hi]
    | true =>
      rw [handleAll_cons_of_more hi] at h
      rw [List.cons_append, handleAll_cons_of_more hi, handleAll_cons_of_more hi, ih h]

theorem handled_append_of_more (h : (handleAll handle t items).2 = true) :
    handled handle t (items ++ later) =
      items ++ handled handle (handleAll handle t items).1 later := by
  induction items generalizing t with
  | nil => rfl
  | cons i items ih =>
    cases hi : (handle t i).2 with
    | false =>
      rw [handleAll_cons_of_stop hi] at h
      cases h
    | true =>
      rw [handleAll_cons_of_more hi] at h
      rw [List.cons_append, handled_cons_of_more hi, handleAll_cons_of_more hi, ih h,
        List.cons_append]

theorem handled_append_of_stop (h : (handleAll handle t items).2 = false) :
    handled handle t (items ++ later) = handled handle t items := by
  induction items generalizing t with
  | nil => cases h
  | cons i items ih =>
    cases hi : (handle t i).2 with
    | false => rw [List.cons_append, handled_cons_of_stop hi, handled_cons_of_stop hi]
    | true =>
      rw [handleAll_cons_of_more hi] at h
      rw [List.cons_append, handled_cons_of_more hi, handled_cons_of_more hi, ih h]

/-- While it wants more, the handler is given every item. -/
theorem handled_of_more (h : (handleAll handle t items).2 = true) :
    handled handle t items = items := by
  have happ : handled handle t (items ++ []) =
      items ++ handled handle (handleAll handle t items).1 [] :=
    handled_append_of_more h
  rw [List.append_nil, handled, List.append_nil] at happ
  exact happ

/-- The handler is given the items in order, from the first. -/
theorem handled_isPrefix (handle : τ → ι → τ × Bool) (t : τ) (items : List ι) :
    handled handle t items <+: items := by
  induction items generalizing t with
  | nil => exact List.prefix_rfl
  | cons i items ih =>
    cases hi : (handle t i).2 with
    | false =>
      rw [handled_cons_of_stop hi]
      exact ⟨items, rfl⟩
    | true =>
      rw [handled_cons_of_more hi]
      exact List.prefix_cons_inj i |>.mpr (ih _)

end Blocks

end ViabtcExchange
