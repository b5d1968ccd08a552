import Mathlib.Algebra.Group.Nat.Even
import Mathlib.Data.List.Infix
import Mathlib.Data.Nat.Basic
import Mathlib.Tactic.Ring

/-!
# Fixed-width words in a byte buffer

A codec writes the words of a type as a fixed number of bytes. A writer appends words to a buffer,
a reader takes them off at a running offset.

* `LittleEndian.bytes`, `LittleEndian.value`: the little-endian bytes of a number;
* `WordCodec`: a codec, both round trips included; `WordCodec.u16`, `.u32`, `.u64`, `.i64`;
* `WordCodec.get_eq_some_iff`: where everything before the offset was written, the reader returns a
  word exactly if the writer's next word is that one.
-/

namespace LittleEndian

/-- The `w` low bytes of `n`, least significant first. -/
def bytes : ℕ → ℕ → List UInt8
  | 0, _ => []
  | w + 1, n => UInt8.ofNat n :: bytes w (n / 256)

/-- The number with these bytes. -/
def value : List UInt8 → ℕ
  | [] => 0
  | b :: bs => b.toNat + 256 * value bs

theorem length_bytes (w n : ℕ) : (bytes w n).length = w := by
  induction w generalizing n with
  | zero => rfl
  | succ w ih => rw [bytes, List.length_cons, ih]

theorem value_bytes {w n : ℕ} (h : n < 256 ^ w) : value (bytes w n) = n := by
  induction w generalizing n with
  | zero =>
    rw [pow_zero] at h
    rw [bytes, value]
    omega
  | succ w ih =>
    have hdiv : n / 256 < 256 ^ w := by
      rw [pow_succ] at h
      exact Nat.div_lt_of_lt_mul (by omega)
    rw [bytes, value, ih hdiv, UInt8.toNat_ofNat']
    omega

theorem value_lt (bs : List UInt8) : value bs < 256 ^ bs.length := by
  induction bs with
  | nil => exact Nat.one_pos
  | cons b bs ih =>
    have hb : b.toNat < 256 := b.toNat_lt
    rw [value, List.length_cons, pow_succ]
    omega

theorem bytes_value (bs : List UInt8) : bytes bs.length (value bs) = bs := by
  induction bs with
  | nil => rfl
  | cons b bs ih =>
    have hb : b.toNat < 256 := b.toNat_lt
    have hlow : UInt8.ofNat (b.toNat + 256 * value bs) = b := by
      refine UInt8.toNat_inj.1 ?_
      rw [UInt8.toNat_ofNat']
      omega
    have hhigh : (b.toNat + 256 * value bs) / 256 = value bs := by omega
    rw [List.length_cons, value, bytes, hlow, hhigh, ih]

end LittleEndian

/-- Words of a type, each written as `width` bytes, every `width` bytes being a word. -/
structure WordCodec (W : Type*) where
  width : ℕ
  encode : W → List UInt8
  decode : List UInt8 → W
  length_encode : ∀ w, (encode w).length = width
  decode_encode : ∀ w, decode (encode w) = w
  encode_decode : ∀ bs, bs.length = width → encode (decode bs) = bs

namespace WordCodec

variable {W : Type*}

/-- The little-endian codec of a type that is in bijection with the numbers below
`256 ^ width`. -/
def littleEndian (width : ℕ) (toNat : W → ℕ) (ofNat : ℕ → W) (hlt : ∀ w, toNat w < 256 ^ width)
    (hof : ∀ w, ofNat (toNat w) = w) (hto : ∀ n < 256 ^ width, toNat (ofNat n) = n) :
    WordCodec W where
  width := width
  encode w := LittleEndian.bytes width (toNat w)
  decode bs := ofNat (LittleEndian.value bs)
  length_encode w := LittleEndian.length_bytes width (toNat w)
  decode_encode w := by rw [LittleEndian.value_bytes (hlt w), hof]
  encode_decode bs hbs := by
    have hval : LittleEndian.value bs < 256 ^ width := hbs ▸ LittleEndian.value_lt bs
    rw [hto _ hval, ← hbs, LittleEndian.bytes_value]

def u16 : WordCodec UInt16 :=
  littleEndian 2 UInt16.toNat UInt16.ofNat UInt16.toNat_lt (fun _ => UInt16.ofNat_toNat)
    fun _ h => UInt16.toNat_ofNat_of_lt' h

def u32 : WordCodec UInt32 :=
  littleEndian 4 UInt32.toNat UInt32.ofNat UInt32.toNat_lt (fun _ => UInt32.ofNat_toNat)
    fun _ h => UInt32.toNat_ofNat_of_lt' h

def u64 : WordCodec UInt64 :=
  littleEndian 8 UInt64.toNat UInt64.ofNat UInt64.toNat_lt (fun _ => UInt64.ofNat_toNat)
    fun _ h => UInt64.toNat_ofNat_of_lt' h

/-- Two's complement. -/
def i64 : WordCodec Int64 :=
  littleEndian 8 (fun w => w.toUInt64.toNat) (fun n => (UInt64.ofNat n).toInt64)
    (fun w => w.toUInt64.toNat_lt) (fun w => by rw [UInt64.ofNat_toNat, Int64.toInt64_toUInt64])
    fun _ h => by rw [UInt64.toUInt64_toInt64, UInt64.toNat_ofNat_of_lt' h]

/-! ### Writing and reading -/

variable (c : WordCodec W) {w : W} {pre b : List UInt8} {off : ℕ}

/-- Append a word. -/
def put (b : List UInt8) (w : W) : List UInt8 := b ++ c.encode w

/-- The word at the offset, and the offset behind it. -/
def get (b : List UInt8) (off : ℕ) : Option (W × ℕ) :=
  if b.length < off + c.width then none
  else some (c.decode ((b.drop off).take c.width), off + c.width)

theorem prefix_put : pre <+: c.put pre w := List.prefix_append _ _

theorem length_put : (c.put pre w).length = pre.length + c.width := by
  rw [put, List.length_append, c.length_encode]

theorem get_of_le (b : List UInt8) (off : ℕ) (h : off + c.width ≤ b.length) :
    c.get b off = some (c.decode ((b.drop off).take c.width), off + c.width) :=
  if_neg (not_lt.2 h)

/-- Read a word where everything before the offset has been accounted for. -/
theorem get_eq_some_iff (h : pre <+: b) :
    c.get b pre.length = some (w, off) ↔ c.put pre w <+: b ∧ off = pre.length + c.width := by
  obtain ⟨rest, rfl⟩ := h
  rw [put, List.prefix_append_right_inj, get, List.drop_left]
  split_ifs with hlen
  · refine iff_of_false (by simp) fun hput => ?_
    have hle := hput.1.length_le
    rw [List.length_append] at hlen
    rw [c.length_encode] at hle
    omega
  · rw [List.length_append] at hlen
    rw [Option.some_inj, Prod.mk.injEq, @eq_comm _ (pre.length + c.width) off]
    refine and_congr_left fun _ => ?_
    have htake : (rest.take c.width).length = c.width :=
      List.length_take_of_le (by omega)
    rw [List.prefix_iff_eq_take, c.length_encode]
    constructor
    · rintro rfl
      exact c.encode_decode _ htake
    · intro henc
      rw [← henc, c.decode_encode]

end WordCodec
