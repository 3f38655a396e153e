import Mathlib.Tactic

/-!
# Buffers of the network layer

`nw_buf.c`. A buffer is memory of a fixed size with two positions: what is before `rpos` has been
taken out again, what is between `rpos` and `wpos` is held, and the rest is free. Its memory is kept
here in these three parts, so that the positions cannot be out of order. What has been taken out
stays in memory until it is written over, and so does what a buffer held before it was freed: an
allocated buffer has any bytes in it.
-/

namespace ViabtcExchange

structure NwBuf where
  /-- The bytes before `rpos`. -/
  passed : List UInt8
  /-- The bytes from `rpos` to `wpos`. -/
  held : List UInt8
  /-- The bytes after `wpos`, left over from before. -/
  spare : List UInt8
deriving DecidableEq, Repr

namespace NwBuf

def rpos (buf : NwBuf) : ℕ := buf.passed.length

def wpos (buf : NwBuf) : ℕ := buf.passed.length + buf.held.length

def size (buf : NwBuf) : ℕ := buf.passed.length + buf.held.length + buf.spare.length

/-- All of its bytes. -/
def memory (buf : NwBuf) : List UInt8 := buf.passed ++ buf.held ++ buf.spare

/-- `nw_buf_size`. -/
def bufSize (buf : NwBuf) : ℕ := buf.held.length

/-- `nw_buf_avail`. -/
def avail (buf : NwBuf) : ℕ := buf.spare.length

/-- `nw_buf_alloc`, of the memory it finds or gets. -/
def alloc (memory : List UInt8) : NwBuf := ⟨[], [], memory⟩

/-- `nw_buf_write`: what fits is written, and how much that was is returned. -/
def write (buf : NwBuf) (data : List UInt8) : NwBuf × ℕ :=
  let wlen := min buf.avail data.length
  ({ buf with held := buf.held ++ data.take wlen, spare := buf.spare.drop wlen }, wlen)

/-- `nw_buf_shift`. -/
def shift (buf : NwBuf) : NwBuf :=
  if buf.held = [] then ⟨[], [], buf.passed ++ buf.spare⟩
  else if buf.passed ≠ [] then
    ⟨[], buf.held, buf.memory.drop buf.held.length⟩
  else buf

/-- `rpos += n`. -/
def advance (buf : NwBuf) (n : ℕ) : NwBuf :=
  { buf with passed := buf.passed ++ buf.held.take n, held := buf.held.drop n }

theorem write_of_le {buf : NwBuf} {data : List UInt8} (h : data.length ≤ buf.avail) :
    buf.write data =
      ({ buf with held := buf.held ++ data, spare := buf.spare.drop data.length },
        data.length) := by
  simp only [write, min_eq_right h, List.take_length]

@[simp] theorem held_shift (buf : NwBuf) : buf.shift.held = buf.held := by
  unfold shift
  split_ifs with hheld hpassed
  · exact hheld.symm
  · rfl
  · rfl

@[simp] theorem passed_shift (buf : NwBuf) : buf.shift.passed = [] := by
  unfold shift
  split_ifs with hheld hpassed
  · rfl
  · rfl
  · exact not_not.mp hpassed

@[simp] theorem size_shift (buf : NwBuf) : buf.shift.size = buf.size := by
  unfold shift memory size
  split_ifs with hheld hpassed
  · simp only [hheld, List.length_nil, List.length_append]
    omega
  · simp only [List.length_nil, List.length_drop, List.length_append]
    omega
  · rfl

theorem wpos_shift (buf : NwBuf) : buf.shift.wpos = buf.held.length := by
  rw [wpos, passed_shift, held_shift, List.length_nil, Nat.zero_add]

theorem size_advance (buf : NwBuf) {n : ℕ} (h : n ≤ buf.held.length) :
    (buf.advance n).size = buf.size := by
  simp only [advance, size, List.length_append, List.length_take, List.length_drop]
  omega

/-- Writing keeps the size and adds to what is held. -/
theorem size_write (buf : NwBuf) (data : List UInt8) : (buf.write data).1.size = buf.size := by
  simp only [write, size, avail, List.length_append, List.length_take, List.length_drop]
  omega

end NwBuf

end ViabtcExchange
