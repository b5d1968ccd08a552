import Mathlib.Algebra.Order.Field.Rat
import Mathlib.Data.List.Sort

/-!
# Windows of samples

`include/oms/RingBuffer.h`: a ring of fixed capacity, in which old samples age out.

A `double` is the rational number it stands for. Every operation on doubles is exact and then
rounded by `rnd`, which stands for the rounding of the target (to the nearest double).
-/

namespace Oms

structure RingBuffer (T : Type) where
  capacity : ℕ
  head : ℕ := 0
  buf : List T := []
  deriving DecidableEq

/-- A cast of a `double` to an integer type drops the fraction. -/
def truncate (q : ℚ) : ℤ := q.num.tdiv q.den

namespace RingBuffer

variable {T : Type}

/-- The ring as constructed. -/
def new (capacity : ℕ) : RingBuffer T where
  capacity := capacity

def push (r : RingBuffer T) (v : T) : RingBuffer T :=
  { r with
    buf := if r.buf.length < r.capacity then r.buf ++ [v] else r.buf.set r.head v
    head := (r.head + 1) % r.capacity }

def size (r : RingBuffer T) : ℕ := r.buf.length

def empty (r : RingBuffer T) : Bool := r.buf.isEmpty

def clear (r : RingBuffer T) : RingBuffer T := { r with buf := [], head := 0 }

variable (rnd : ℚ → ℚ)

/-- Fraction of samples satisfying a predicate (`0` when empty). -/
def fraction (r : RingBuffer T) (pred : T → Bool) : ℚ :=
  if r.empty then 0 else rnd (rnd (r.buf.countP pred) / rnd r.size)

/-- Linear-interpolation percentile over a sorted copy of the samples. -/
def percentile (r : RingBuffer ℤ) (p : ℚ) : ℤ :=
  let s := r.buf.insertionSort (· ≤ ·)
  let last := s.length - 1
  if s.isEmpty then 0
  else if p ≤ 0 then s.getD 0 0
  else if 1 ≤ p then s.getD last 0
  else
    let idx := rnd (p * rnd last)
    let lo := (truncate idx).toNat
    let hi := min (lo + 1) last
    let frac := rnd (idx - rnd lo)
    truncate (rnd (rnd (s.getD lo 0) + rnd (rnd (s.getD hi 0 - s.getD lo 0 : ℤ) * frac)))

end RingBuffer

end Oms
