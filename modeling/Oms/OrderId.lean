import Oms.Foundation.BitField

/-!
# The packed order id

`include/oms/OrderId.h`: an order id packs `[venue:8][generation:16][slot:24][sequence:16]` into
64 bits, so an inbound event decodes by arithmetic, without a lookup.

* `encodeOrderId`, `decodeOrderId`: the codec;
* `encodeOrderId_toNat`, `decodeOrderId_toNat`: the codec in mixed radix, from which the round
  trips follow by linear arithmetic;
* `orderId_codec_bijective`: the round trips, and what the encoder takes of a slot that is too wide.
-/

namespace Oms

abbrev OrderIdRaw := UInt64

namespace IdBits

def venue : ℕ := 8
def generation : ℕ := 16
def slot : ℕ := 24
def sequence : ℕ := 16

/-- The fields pack into exactly 64 bits (the source asserts it statically). -/
theorem width_eq : venue + generation + slot + sequence = 64 := rfl

def sequenceShift : UInt64 := 0
def slotShift : UInt64 := 16
def generationShift : UInt64 := 40
def venueShift : UInt64 := 56

def venueMask : UInt64 := 0xff
def generationMask : UInt64 := 0xffff
def slotMask : UInt64 := 0xffffff
def sequenceMask : UInt64 := 0xffff

end IdBits

open IdBits

/-- The fields of an order id. Only the low 24 bits of `slot` are meaningful. -/
structure OrderId where
  venue : UInt8
  generation : UInt16
  slot : UInt32
  sequence : UInt16
  deriving DecidableEq, Repr

/-- Largest addressable slot count, given the 24-bit slot field. -/
def kMaxSlots : ℕ := slotMask.toNat + 1

def encodeOrderId (venue : UInt8) (generation : UInt16) (slot : UInt32) (sequence : UInt16) :
    OrderIdRaw :=
  (venue.toUInt64 <<< venueShift) ||| (generation.toUInt64 <<< generationShift)
    ||| ((slot.toUInt64 &&& slotMask) <<< slotShift) ||| (sequence.toUInt64 <<< sequenceShift)

def decodeOrderId (id : OrderIdRaw) : OrderId where
  venue := ((id >>> venueShift) &&& venueMask).toUInt8
  generation := ((id >>> generationShift) &&& generationMask).toUInt16
  slot := ((id >>> slotShift) &&& slotMask).toUInt32
  sequence := ((id >>> sequenceShift) &&& sequenceMask).toUInt16

/-! ### The codec in mixed radix -/

theorem encodeOrderId_toNat (v : UInt8) (g : UInt16) (s : UInt32) (q : UInt16) :
    (encodeOrderId v g s q).toNat =
      v.toNat * 2 ^ 56 + (g.toNat * 2 ^ 40 + (s.toNat % 2 ^ 24 * 2 ^ 16 + q.toNat)) := by
  have hv := v.toNat_lt
  have hg := g.toNat_lt
  have hq := q.toNat_lt
  have hs : s.toNat % 2 ^ 24 < 2 ^ 24 := Nat.mod_lt _ (by norm_num)
  have hmask : s.toNat &&& 16777215 = s.toNat % 2 ^ 24 := BitField.and_mask s.toNat 24
  simp only [encodeOrderId, venueShift, generationShift, slotShift, sequenceShift, slotMask,
    UInt64.toNat_or, UInt64.toNat_shiftLeft, UInt64.toNat_and, UInt8.toNat_toUInt64,
    UInt16.toNat_toUInt64, UInt32.toNat_toUInt64, UInt64.reduceToNat, Nat.reduceMod,
    Nat.shiftLeft_eq, hmask, Nat.pow_zero, Nat.mul_one]
  generalize s.toNat % 2 ^ 24 = slot at hs ⊢
  -- no field reaches bit 64, so the shifts lose nothing
  simp (disch := omega) only [Nat.mod_eq_of_lt]
  rw [Nat.or_assoc, Nat.or_assoc, BitField.mul_two_pow_or (k := 16) hq,
    BitField.mul_two_pow_or (k := 40) (by omega), BitField.mul_two_pow_or (k := 56) (by omega)]

theorem decodeOrderId_toNat (id : OrderIdRaw) :
    (decodeOrderId id).venue.toNat = id.toNat / 2 ^ 56 ∧
      (decodeOrderId id).generation.toNat = id.toNat / 2 ^ 40 % 2 ^ 16 ∧
      (decodeOrderId id).slot.toNat = id.toNat / 2 ^ 16 % 2 ^ 24 ∧
      (decodeOrderId id).sequence.toNat = id.toNat % 2 ^ 16 := by
  have hid := id.toNat_lt
  have hfield := BitField.shiftRight_and_mask id.toNat
  have h56 := hfield 56 8
  have h40 := hfield 40 16
  have h16 := hfield 16 24
  have h0 := hfield 0 16
  norm_num at h56 h40 h16 h0
  simp only [decodeOrderId, venueShift, generationShift, slotShift, sequenceShift, venueMask,
    generationMask, slotMask, sequenceMask, UInt64.toNat_toUInt8, UInt64.toNat_toUInt16,
    UInt64.toNat_toUInt32, UInt64.toNat_and, UInt64.toNat_shiftRight, UInt64.reduceToNat,
    Nat.reduceMod, Nat.shiftRight_zero, h56, h40, h16, h0]
  refine ⟨?_, ?_, ?_, ?_⟩ <;> omega

/-! ### Round trips -/

/-- The slot an id decodes to, as an index into the pool. -/
def slotOf (id : OrderIdRaw) : ℕ := (decodeOrderId id).slot.toNat

theorem decodeOrderId_encodeOrderId (v : UInt8) (g : UInt16) (s : UInt32) (q : UInt16) :
    decodeOrderId (encodeOrderId v g s q) = ⟨v, g, UInt32.ofNat (s.toNat % 2 ^ 24), q⟩ := by
  obtain ⟨hv, hg, hs, hq⟩ := decodeOrderId_toNat (encodeOrderId v g s q)
  rw [encodeOrderId_toNat] at hv hg hs hq
  have := v.toNat_lt
  have := g.toNat_lt
  have := q.toNat_lt
  have ev : (decodeOrderId (encodeOrderId v g s q)).venue = v := UInt8.toNat.inj (by omega)
  have eg : (decodeOrderId (encodeOrderId v g s q)).generation = g := UInt16.toNat.inj (by omega)
  have es : (decodeOrderId (encodeOrderId v g s q)).slot = UInt32.ofNat (s.toNat % 2 ^ 24) := by
    apply UInt32.toNat.inj
    rw [UInt32.toNat_ofNat']
    omega
  have eq : (decodeOrderId (encodeOrderId v g s q)).sequence = q := UInt16.toNat.inj (by omega)
  cases h : decodeOrderId (encodeOrderId v g s q)
  simp_all

/-- Encoding the fields of an id gives the id back. -/
theorem encodeOrderId_decodeOrderId (id : OrderIdRaw) :
    encodeOrderId (decodeOrderId id).venue (decodeOrderId id).generation (decodeOrderId id).slot
      (decodeOrderId id).sequence = id := by
  obtain ⟨hv, hg, hs, hq⟩ := decodeOrderId_toNat id
  apply UInt64.toNat.inj
  rw [encodeOrderId_toNat, hv, hg, hs, hq]
  omega

/-- Two ids with the same fields are equal. -/
theorem decodeOrderId_injective : Function.Injective decodeOrderId := fun a b h => by
  rw [← encodeOrderId_decodeOrderId a, ← encodeOrderId_decodeOrderId b, h]

section Encode

variable {v : UInt8} {g : UInt16} {slot : ℕ} {q : UInt16}

/-- The id minted for a slot of the pool decodes to that slot. -/
theorem slotOf_encodeOrderId (h : slot < kMaxSlots) :
    slotOf (encodeOrderId v g (UInt32.ofNat slot) q) = slot := by
  rw [show kMaxSlots = 2 ^ 24 by decide] at h
  rw [slotOf, (decodeOrderId_toNat _).2.2.1, encodeOrderId_toNat, UInt32.toNat_ofNat']
  have := q.toNat_lt
  omega

@[simp] theorem generation_encodeOrderId (s : UInt32) :
    (decodeOrderId (encodeOrderId v g s q)).generation = g := by
  rw [decodeOrderId_encodeOrderId]

@[simp] theorem venue_encodeOrderId (s : UInt32) :
    (decodeOrderId (encodeOrderId v g s q)).venue = v := by
  rw [decodeOrderId_encodeOrderId]

@[simp] theorem sequence_encodeOrderId (s : UInt32) :
    (decodeOrderId (encodeOrderId v g s q)).sequence = q := by
  rw [decodeOrderId_encodeOrderId]

theorem generation_of_eq_encodeOrderId {id : OrderIdRaw} {s : UInt32}
    (h : id = encodeOrderId v g s q) : (decodeOrderId id).generation = g := by
  rw [h, generation_encodeOrderId]

end Encode

/-! ### The codec as a bijection -/

/-- A slot that fits its field comes back as it is. -/
theorem decodeOrderId_encodeOrderId_of_lt (v : UInt8) (g : UInt16) {s : UInt32} (q : UInt16)
    (h : s.toNat < 2 ^ 24) : decodeOrderId (encodeOrderId v g s q) = ⟨v, g, s, q⟩ := by
  rw [decodeOrderId_encodeOrderId, Nat.mod_eq_of_lt h, UInt32.ofNat_toNat]

/-- Two slots are encoded alike exactly if they have the same low 24 bits. -/
theorem encodeOrderId_inj_slot (v : UInt8) (g : UInt16) (s s' : UInt32) (q : UInt16) :
    encodeOrderId v g s q = encodeOrderId v g s' q ↔ s.toNat % 2 ^ 24 = s'.toNat % 2 ^ 24 := by
  rw [← UInt64.toNat_inj, encodeOrderId_toNat, encodeOrderId_toNat]
  omega

/-- **The order-id codec is a bijection** between the ids and the fields whose slot has 24 bits. Of
a wider slot the encoder takes the low 24 bits, and leaves the other fields alone. -/
theorem orderId_codec_bijective :
    (∀ (v : UInt8) (g : UInt16) (s : UInt32) (q : UInt16), s.toNat < 2 ^ 24 →
      decodeOrderId (encodeOrderId v g s q) = ⟨v, g, s, q⟩) ∧
    (∀ id : OrderIdRaw, encodeOrderId (decodeOrderId id).venue (decodeOrderId id).generation
      (decodeOrderId id).slot (decodeOrderId id).sequence = id) ∧
    (∀ (v : UInt8) (g : UInt16) (s s' : UInt32) (q : UInt16),
      encodeOrderId v g s q = encodeOrderId v g s' q ↔ s.toNat % 2 ^ 24 = s'.toNat % 2 ^ 24) ∧
    ∀ (v : UInt8) (g : UInt16) (s : UInt32) (q : UInt16),
      (decodeOrderId (encodeOrderId v g s q)).venue = v ∧
        (decodeOrderId (encodeOrderId v g s q)).generation = g ∧
        (decodeOrderId (encodeOrderId v g s q)).slot.toNat = s.toNat % 2 ^ 24 ∧
        (decodeOrderId (encodeOrderId v g s q)).sequence = q := by
  refine ⟨fun v g s q h => decodeOrderId_encodeOrderId_of_lt v g q h, encodeOrderId_decodeOrderId,
    encodeOrderId_inj_slot, fun v g s q => ⟨venue_encodeOrderId s, generation_encodeOrderId s, ?_,
      sequence_encodeOrderId s⟩⟩
  have hlt : s.toNat % 2 ^ 24 < 2 ^ 24 := Nat.mod_lt _ (by norm_num)
  rw [decodeOrderId_encodeOrderId]
  exact UInt32.toNat_ofNat_of_lt' (hlt.trans (by norm_num))

end Oms
