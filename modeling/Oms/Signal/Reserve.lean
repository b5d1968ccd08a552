import Oms.Signal.Wire

/-!
# What the decoder allocates

`deserialize_signal` reads the count of targets from the buffer, reserves room for that many, and
reads them one by one only then. The count is the buffer's word until the reads have confirmed it.

* `getHeader`, `getBody`: the decoder before and after its `reserve`; `deserializeSignalIn`: the
  decoder with an allocator that may refuse;
* `reserves_eq`: what is reserved, and how many bytes are left by then;
* `reserve_bounded_iff`: the reservation is one that the buffer could fill exactly if the buffer is
  too short for a header, or starts with a whole message.
-/

namespace Oms

namespace Wire

open WordCodec

/-- The decoder before its `reserve`: the message so far, the count of targets and the offset. -/
def getHeader (b : List UInt8) : Option (SignalMessage × UInt32 × ℕ) := do
  let (schemaVersion, off) ← u32.get b 0
  let (sequence, off) ← u64.get b off
  let (generatedAt, off) ← i64.get b off
  let (strategyId, off) ← u16.get b off
  let (n, off) ← u32.get b off
  return ({ schemaVersion, sequence, generatedAt, strategyId }, n, off)

/-- The decoder after its `reserve`. -/
def getBody (b : List UInt8) (out : SignalMessage) (n : UInt32) (off : ℕ) :
    Option SignalMessage := do
  let (targets, off) ← getTargets b n.toNat off
  if off = b.length then some { out with targets } else none

/-- `reserve` throws: the allocator did not grant room for so many targets. -/
structure BadAlloc where
  count : ℕ
  deriving DecidableEq

/-- The decoder with its allocator, which is asked for room for a number of targets. -/
def deserializeSignalIn (grants : ℕ → Bool) (b : List UInt8) :
    Except BadAlloc (Option SignalMessage) :=
  match getHeader b with
  | none => .ok none
  | some (out, n, off) =>
    if grants n.toNat then .ok (getBody b out n off) else .error { count := n.toNat }

/-- The number of targets that `reserve` is called with, if it is, and the number of bytes that
remain by then. -/
def reserves (b : List UInt8) : Option (ℕ × ℕ) :=
  (getHeader b).map fun (_, n, off) => (n.toNat, b.length - off)

section Reserve

variable {b : List UInt8} {grants : ℕ → Bool}

theorem deserializeSignal_eq_bind : deserializeSignal b =
    (getHeader b).bind fun (out, n, off) => getBody b out n off := by
  simp only [deserializeSignal, getHeader, getBody, Option.bind_eq_bind, Option.bind_assoc]
  rfl

/-- With room for everything, the decoder answers as it does without an allocator. -/
theorem deserializeSignalIn_of_grants (h : ∀ r ∈ reserves b, grants r.1 = true) :
    deserializeSignalIn grants b = .ok (deserializeSignal b) := by
  rw [deserializeSignal_eq_bind, deserializeSignalIn]
  cases hheader : getHeader b with
  | none => rfl
  | some header =>
    obtain ⟨out, n, off⟩ := header
    have hgrants : grants n.toNat = true := h (n.toNat, b.length - off) (by
      rw [reserves, hheader]
      rfl)
    show (if grants n.toNat then _ else _) = _
    rw [if_pos hgrants]
    rfl

/-- The header is read exactly if the buffer has the 26 bytes. -/
theorem getHeader_of_le (h : 26 ≤ b.length) : ∃ out n, getHeader b = some (out, n, 26) ∧
    out.targets = [] ∧ putHeader out n <+: b := by
  have hversion := u32.get_of_le b 0 (show 0 + 4 ≤ b.length by omega)
  have hseq := u64.get_of_le b 4 (show 4 + 8 ≤ b.length by omega)
  have hgen := i64.get_of_le b 12 (show 12 + 8 ≤ b.length by omega)
  have hid := u16.get_of_le b 20 (show 20 + 2 ≤ b.length by omega)
  have hn := u32.get_of_le b 22 (show 22 + 4 ≤ b.length by omega)
  obtain ⟨hheader, -⟩ := getHeader_eq_some_iff.1 ⟨hversion, hseq, hgen, hid, hn⟩
  refine ⟨_, _, ?_, rfl, hheader⟩
  simp only [getHeader, Option.bind_eq_bind, Option.bind_eq_some_iff, Prod.exists]
  exact ⟨_, _, hversion, _, _, hseq, _, _, hgen, _, _, hid, _, _, hn, rfl⟩

theorem getHeader_of_lt (h : b.length < 26) : getHeader b = none := by
  rw [Option.eq_none_iff_forall_ne_some]
  rintro ⟨out, n, off⟩ hheader
  simp only [getHeader, Option.bind_eq_bind, Option.bind_eq_some_iff, Prod.exists] at hheader
  obtain ⟨_, off₁, hversion, _, off₂, hseq, _, off₃, hgen, _, off₄, hid, _, off, hn, -⟩ := hheader
  obtain ⟨hpre, -⟩ := getHeader_eq_some_iff.1 ⟨hversion, hseq, hgen, hid, hn⟩
  have hle := hpre.length_le
  rw [length_putHeader] at hle
  omega

/-- **What is reserved**: the count at offset 22, when 26 bytes have been read. -/
theorem reserves_eq : reserves b =
    if b.length < 26 then none else some (targetCount b, b.length - 26) := by
  rw [reserves]
  split_ifs with hlt
  · rw [getHeader_of_lt hlt]
    rfl
  · obtain ⟨out, n, hheader, -, hpre⟩ := getHeader_of_le (not_lt.1 hlt)
    rw [hheader, targetCount_eq hpre]
    rfl

/-- The buffer has room for the targets that it announces exactly if it starts with a message. -/
theorem targetCount_le_iff (h : 26 ≤ b.length) : targetCount b ≤ (b.length - 26) / 10 ↔
    ∃ m : SignalMessage, m.targets.length < 2 ^ 32 ∧ serializeSignal m <+: b := by
  constructor
  · intro hle
    obtain ⟨out, n, -, -, hpre⟩ := getHeader_of_le h
    rw [targetCount_eq hpre] at hle
    obtain ⟨targets, htargets⟩ := getTargets_of_le n.toNat 26 (show 26 + 10 * n.toNat ≤ b.length by
      omega)
    rw [← length_putHeader (m := out) n] at htargets
    obtain ⟨hlen, hbody, -⟩ := (getTargets_eq_some_iff hpre).1 htargets
    refine ⟨{ out with targets }, hlen ▸ n.toNat_lt, ?_⟩
    rw [serializeSignal_eq]
    show putTargets (putHeader out (UInt32.ofNat targets.length)) targets <+: b
    rw [hlen, UInt32.ofNat_toNat]
    exact hbody
  · rintro ⟨m, hlen, hpre⟩
    have hheader : putHeader m (UInt32.ofNat m.targets.length) <+: serializeSignal m :=
      prefix_putTargets
    have hle := hpre.length_le
    rw [length_serializeSignal] at hle
    rw [targetCount_eq (hheader.trans hpre), UInt32.toNat_ofNat_of_lt' hlen]
    omega

/-- The decoder reserves no more targets than the rest of the buffer can hold, so it answers
wherever the allocator grants that much. -/
structure Frugal (b : List UInt8) : Prop where
  bounded : ∀ r ∈ reserves b, r.1 ≤ r.2 / 10
  answers : ∀ grants : ℕ → Bool, (∀ n, n ≤ (b.length - 26) / 10 → grants n = true) →
    deserializeSignalIn grants b = .ok (deserializeSignal b)

/-- **The reservation is bounded by the buffer** exactly for the buffers that are too short for a
header and those that start with the encoding of a message. -/
theorem reserve_bounded_iff (b : List UInt8) : Frugal b ↔
    b.length < 26 ∨
      ∃ m : SignalMessage, m.targets.length < 2 ^ 32 ∧ serializeSignal m <+: b := by
  rcases lt_or_ge b.length 26 with hlt | hle
  · have hnone : ∀ r, r ∉ reserves b := fun r hr => by
      rw [reserves_eq, if_pos hlt] at hr
      cases hr
    refine iff_of_true ⟨fun r hr => absurd hr (hnone r), fun grants _ => ?_⟩ (Or.inl hlt)
    exact deserializeSignalIn_of_grants fun r hr => absurd hr (hnone r)
  · have hreserves : reserves b = some (targetCount b, b.length - 26) := by
      rw [reserves_eq, if_neg (not_lt.2 hle)]
    rw [← targetCount_le_iff hle, or_iff_right (not_lt.2 hle)]
    constructor
    · exact fun h => h.bounded _ hreserves
    · intro hcount
      have hmem : ∀ r ∈ reserves b, r = (targetCount b, b.length - 26) := fun r hr =>
        (Option.some.inj (hreserves.symm.trans hr)).symm
      refine ⟨fun r hr => ?_, fun grants hgrants => ?_⟩
      · rw [hmem r hr]
        exact hcount
      · refine deserializeSignalIn_of_grants fun r hr => ?_
        rw [hmem r hr]
        exact hgrants _ hcount

end Reserve

/-- A header that announces `2 ^ 32 - 1` targets, and nothing behind it. -/
def hostileHeader : List UInt8 :=
  putHeader {} 0xffffffff

/-- The decoder asks for all of them before it looks for the first. -/
theorem hostile_count_reserved : ¬ ∀ b : List UInt8, Frugal b := by
  intro h
  have hreserves : reserves hostileHeader = some (2 ^ 32 - 1, 0) := by decide
  exact absurd ((h hostileHeader).bounded _ hreserves) (by decide)

end Wire

end Oms
