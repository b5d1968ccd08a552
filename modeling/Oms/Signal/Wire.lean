import Oms.Foundation.WordCodec
import Oms.Signal

/-!
# The binary codec of signals

`serialize_signal` and `deserialize_signal` of `Signal.cpp`, over `detail::put` and `detail::get` of
`Detail.h`. A message has its fields here as the machine has them: `generated_at` and the targets
are `int64_t`, which every eight bytes of a buffer are.

* `getTargets_eq_some_iff`: the loop over the targets reads what the loop over the targets writes;
* `deserializeSignal_eq_some_iff`: a buffer decodes to a message exactly if it is its encoding;
* `codec_bijective`: the round trips, and which buffers are accepted.
-/

namespace Oms

namespace Wire

/-- One instrument's signed target position. -/
structure TargetPosition where
  instrument : InstrumentId := 0
  signedTarget : Int64 := 0
  deriving DecidableEq

/-- A published target book. -/
structure SignalMessage where
  schemaVersion : UInt32 := 1
  sequence : UInt64 := 0
  generatedAt : Int64 := 0
  strategyId : StrategyId := 0
  targets : List TargetPosition := []
  deriving DecidableEq

/-- The target with its quantity read as an integer. -/
def TargetPosition.exact (t : TargetPosition) : Oms.TargetPosition where
  instrument := t.instrument
  signedTarget := t.signedTarget.toInt

/-- The message with its signed fields read as integers. -/
def SignalMessage.exact (m : SignalMessage) : Oms.SignalMessage where
  schemaVersion := m.schemaVersion
  sequence := m.sequence
  generatedAt := m.generatedAt.toInt
  strategyId := m.strategyId
  targets := m.targets.map TargetPosition.exact

open WordCodec

/-- The loop of the encoder over the targets. -/
def putTargets (b : List UInt8) (targets : List TargetPosition) : List UInt8 :=
  targets.foldl (fun b t => i64.put (u16.put b t.instrument) t.signedTarget) b

def serializeSignal (m : SignalMessage) : List UInt8 :=
  let b := u32.put [] m.schemaVersion
  let b := u64.put b m.sequence
  let b := i64.put b m.generatedAt
  let b := u16.put b m.strategyId
  let n := UInt32.ofNat m.targets.length
  let b := u32.put b n
  putTargets b m.targets

/-- The loop of the decoder over `n` targets. -/
def getTargets (b : List UInt8) : ℕ → ℕ → Option (List TargetPosition × ℕ)
  | 0, off => some ([], off)
  | n + 1, off => do
    let (instrument, off) ← u16.get b off
    let (signedTarget, off) ← i64.get b off
    let (targets, off) ← getTargets b n off
    return ({ instrument, signedTarget } :: targets, off)

/-- `none` on a malformed or truncated buffer. -/
def deserializeSignal (b : List UInt8) : Option SignalMessage := do
  let (schemaVersion, off) ← u32.get b 0
  let (sequence, off) ← u64.get b off
  let (generatedAt, off) ← i64.get b off
  let (strategyId, off) ← u16.get b off
  let (n, off) ← u32.get b off
  let (targets, off) ← getTargets b n.toNat off
  -- reject trailing garbage
  if off = b.length then some { schemaVersion, sequence, generatedAt, strategyId, targets }
  else none

/-- The count of targets in the header of a buffer. -/
def targetCount (b : List UInt8) : ℕ := LittleEndian.value ((b.drop 22).take 4)

section Targets

variable {pre b : List UInt8} {targets : List TargetPosition} {n off : ℕ}

theorem prefix_putTargets : pre <+: putTargets pre targets := by
  induction targets generalizing pre with
  | nil => exact List.prefix_refl _
  | cons t targets ih => exact (u16.prefix_put.trans i64.prefix_put).trans ih

theorem length_putTargets : (putTargets pre targets).length = pre.length + 10 * targets.length := by
  induction targets generalizing pre with
  | nil => rfl
  | cons t targets ih =>
    have hstep : (i64.put (u16.put pre t.instrument) t.signedTarget).length = pre.length + 10 := by
      rw [length_put, length_put]
      rfl
    rw [putTargets, List.foldl_cons, ← putTargets, ih, hstep, List.length_cons]
    ring

/-- Read the targets where everything before the offset has been accounted for. -/
theorem getTargets_eq_some_iff (h : pre <+: b) :
    getTargets b n pre.length = some (targets, off) ↔
      targets.length = n ∧ putTargets pre targets <+: b ∧ off = pre.length + 10 * n := by
  induction n generalizing pre targets off with
  | zero =>
    rw [getTargets, Option.some_inj, Prod.mk.injEq, List.length_eq_zero_iff]
    constructor
    · rintro ⟨rfl, rfl⟩
      exact ⟨rfl, h, rfl⟩
    · rintro ⟨rfl, -, rfl⟩
      exact ⟨rfl, rfl⟩
  | succ n ih =>
    simp only [getTargets, Option.bind_eq_bind, Option.bind_eq_some_iff, Prod.exists]
    constructor
    · rintro ⟨instrument, off₁, hinst, quantity, off₂, hqty, rest, off₃, hrest, hout⟩
      -- each read lengthens the part of the buffer that is accounted for
      obtain ⟨hp₁, rfl⟩ := (u16.get_eq_some_iff h).1 hinst
      rw [← u16.length_put (w := instrument)] at hqty
      obtain ⟨hp₂, rfl⟩ := (i64.get_eq_some_iff hp₁).1 hqty
      rw [← i64.length_put (w := quantity)] at hrest
      obtain ⟨hn, hp₃, rfl⟩ := (ih hp₂).1 hrest
      obtain ⟨rfl, rfl⟩ := Prod.mk.inj (Option.some.inj hout)
      refine ⟨congrArg (· + 1) hn, hp₃, ?_⟩
      rw [length_put, length_put]
      show pre.length + 2 + 8 + 10 * n = _
      ring
    · rintro ⟨hn, hp, rfl⟩
      cases targets with
      | nil => exact absurd hn (Nat.succ_ne_zero n).symm
      | cons t rest =>
        have hp₂ : i64.put (u16.put pre t.instrument) t.signedTarget <+: b :=
          prefix_putTargets.trans hp
        have hp₁ : u16.put pre t.instrument <+: b := i64.prefix_put.trans hp₂
        refine ⟨t.instrument, _, (u16.get_eq_some_iff h).2 ⟨hp₁, rfl⟩, t.signedTarget,
          pre.length + 10, ?_, rest, pre.length + 10 * (n + 1), ?_, rfl⟩
        · rw [← u16.length_put (w := t.instrument)]
          exact (i64.get_eq_some_iff hp₁).2 ⟨hp₂, by rw [length_put]; rfl⟩
        · have hlen : pre.length + 10 =
              (i64.put (u16.put pre t.instrument) t.signedTarget).length := by
            rw [length_put, length_put]
            rfl
          rw [hlen]
          refine (ih hp₂).2 ⟨Nat.succ.inj hn, hp, ?_⟩
          rw [← hlen]
          ring

end Targets

/-! ### The whole message -/

section Message

variable {m : SignalMessage} {b : List UInt8}

/-- The bytes before the targets. -/
def putHeader (m : SignalMessage) (n : UInt32) : List UInt8 :=
  u32.put (u16.put (i64.put (u64.put (u32.put [] m.schemaVersion) m.sequence) m.generatedAt)
    m.strategyId) n

theorem serializeSignal_eq :
    serializeSignal m = putTargets (putHeader m (UInt32.ofNat m.targets.length)) m.targets := rfl

theorem length_putHeader (n : UInt32) : (putHeader m n).length = 26 := by
  rw [putHeader, length_put, length_put, length_put, length_put, length_put]
  rfl

theorem length_serializeSignal : (serializeSignal m).length = 26 + 10 * m.targets.length := by
  rw [serializeSignal_eq, length_putTargets, length_putHeader]

/-- Read the five fields of the header. -/
theorem getHeader_eq_some_iff {schemaVersion n : UInt32} {sequence : UInt64} {generatedAt : Int64}
    {strategyId : StrategyId} {off₁ off₂ off₃ off₄ off : ℕ} :
    u32.get b 0 = some (schemaVersion, off₁) ∧ u64.get b off₁ = some (sequence, off₂) ∧
      i64.get b off₂ = some (generatedAt, off₃) ∧ u16.get b off₃ = some (strategyId, off₄) ∧
      u32.get b off₄ = some (n, off) ↔
    putHeader { schemaVersion, sequence, generatedAt, strategyId } n <+: b ∧
      off₁ = 4 ∧ off₂ = 12 ∧ off₃ = 20 ∧ off₄ = 22 ∧ off = 26 := by
  have h₀ : [] <+: b := List.nil_prefix
  constructor
  · rintro ⟨hversion, hseq, hgen, hid, hn⟩
    obtain ⟨h₁, rfl⟩ := (u32.get_eq_some_iff h₀).1 hversion
    rw [← u32.length_put (w := schemaVersion)] at hseq
    obtain ⟨h₂, rfl⟩ := (u64.get_eq_some_iff h₁).1 hseq
    rw [← u64.length_put (w := sequence)] at hgen
    obtain ⟨h₃, rfl⟩ := (i64.get_eq_some_iff h₂).1 hgen
    rw [← i64.length_put (w := generatedAt)] at hid
    obtain ⟨h₄, rfl⟩ := (u16.get_eq_some_iff h₃).1 hid
    rw [← u16.length_put (w := strategyId)] at hn
    obtain ⟨h₅, rfl⟩ := (u32.get_eq_some_iff h₄).1 hn
    refine ⟨h₅, ?_⟩
    simp only [length_put]
    exact ⟨rfl, rfl, rfl, rfl, rfl⟩
  · rintro ⟨h₅, rfl, rfl, rfl, rfl, rfl⟩
    have h₄ := u32.prefix_put.trans h₅
    have h₃ := u16.prefix_put.trans h₄
    have h₂ := i64.prefix_put.trans h₃
    have h₁ := u64.prefix_put.trans h₂
    exact ⟨(u32.get_eq_some_iff h₀).2 ⟨h₁, rfl⟩, (u64.get_eq_some_iff h₁).2 ⟨h₂, rfl⟩,
      (i64.get_eq_some_iff h₂).2 ⟨h₃, rfl⟩, (u16.get_eq_some_iff h₃).2 ⟨h₄, rfl⟩,
      (u32.get_eq_some_iff h₄).2 ⟨h₅, rfl⟩⟩

/-- **A buffer decodes to a message exactly if it is the message's encoding**, for messages whose
count of targets fits the header. -/
theorem deserializeSignal_eq_some_iff :
    deserializeSignal b = some m ↔ m.targets.length < 2 ^ 32 ∧ serializeSignal m = b := by
  simp only [deserializeSignal, Option.bind_eq_bind, Option.bind_eq_some_iff, Prod.exists]
  constructor
  · rintro ⟨schemaVersion, off₁, hversion, sequence, off₂, hseq, generatedAt, off₃, hgen,
      strategyId, off₄, hid, n, off, hn, targets, stop, htargets, hout⟩
    obtain ⟨hheader, rfl, rfl, rfl, rfl, rfl⟩ :=
      getHeader_eq_some_iff.1 ⟨hversion, hseq, hgen, hid, hn⟩
    rw [← length_putHeader n] at htargets
    obtain ⟨hlen, hpre, rfl⟩ := (getTargets_eq_some_iff hheader).1 htargets
    split_ifs at hout with hend
    cases hout
    refine ⟨hlen ▸ n.toNat_lt, ?_⟩
    -- the reader stops at the end of the buffer, so nothing follows the targets
    have hbytes : putTargets _ targets = b := hpre.eq_of_length <| by
      rw [← hend, length_putTargets, length_putHeader, hlen]
    rw [← hbytes, serializeSignal_eq, hlen, UInt32.ofNat_toNat]
    rfl
  · rintro ⟨hlen, rfl⟩
    have hn : (UInt32.ofNat m.targets.length).toNat = m.targets.length :=
      UInt32.toNat_ofNat_of_lt' hlen
    have hheader : putHeader m (UInt32.ofNat m.targets.length) <+: serializeSignal m :=
      prefix_putTargets
    obtain ⟨hversion, hseq, hgen, hid, hcount⟩ := getHeader_eq_some_iff.2
      ⟨hheader, rfl, rfl, rfl, rfl, rfl⟩
    refine ⟨_, _, hversion, _, _, hseq, _, _, hgen, _, _, hid, _, _, hcount, m.targets,
      26 + 10 * m.targets.length, ?_, ?_⟩
    · rw [hn, ← length_putHeader (m := m) (UInt32.ofNat m.targets.length)]
      exact (getTargets_eq_some_iff hheader).2 ⟨rfl, List.prefix_refl _, rfl⟩
    · rw [if_pos length_serializeSignal.symm]

/-- The loop over the targets succeeds on a buffer that is long enough. -/
theorem getTargets_of_le (n off : ℕ) (h : off + 10 * n ≤ b.length) :
    ∃ targets, getTargets b n off = some (targets, off + 10 * n) := by
  induction n generalizing off with
  | zero => exact ⟨[], rfl⟩
  | succ n ih =>
    have hinst := u16.get_of_le b off (show off + 2 ≤ b.length by omega)
    have hqty := i64.get_of_le b (off + 2) (show off + 2 + 8 ≤ b.length by omega)
    obtain ⟨targets, hrest⟩ := ih (off + 10) (by omega)
    rw [getTargets, hinst, Option.bind_eq_bind, Option.bind_some]
    dsimp only
    rw [show off + u16.width = off + 2 from rfl, hqty, Option.bind_eq_bind, Option.bind_some]
    dsimp only
    rw [show off + 2 + i64.width = off + 10 from rfl, hrest, Option.bind_eq_bind, Option.bind_some,
      show off + 10 + 10 * n = off + 10 * (n + 1) by ring]
    exact ⟨_, rfl⟩

/-- Where a buffer starts with a header, the header's count is the one at offset 22. -/
theorem targetCount_eq {n : UInt32} (h : putHeader m n <+: b) : targetCount b = n.toNat := by
  obtain ⟨-, -, -, -, hn⟩ := getHeader_eq_some_iff.2 ⟨h, rfl, rfl, rfl, rfl, rfl⟩
  have hlen : 22 + u32.width ≤ b.length := by
    have hle := h.length_le
    rwa [length_putHeader] at hle
  rw [u32.get_of_le b 22 hlen, Option.some_inj, Prod.mk.injEq] at hn
  have hvalue : LittleEndian.value ((b.drop 22).take 4) < 256 ^ 4 := by
    have hlt := LittleEndian.value_lt ((b.drop 22).take 4)
    rwa [List.length_take_of_le (by rw [List.length_drop]; exact Nat.le_sub_of_add_le' hlen)]
      at hlt
  rw [← hn.1]
  exact (UInt32.toNat_ofNat_of_lt' hvalue).symm

/-- Which buffers are accepted. -/
theorem isSome_deserializeSignal_iff :
    (deserializeSignal b).isSome ↔ b.length = 26 + 10 * targetCount b := by
  constructor
  · intro h
    obtain ⟨m, hm⟩ := Option.isSome_iff_exists.1 h
    obtain ⟨hlen, rfl⟩ := deserializeSignal_eq_some_iff.1 hm
    have hheader : putHeader m (UInt32.ofNat m.targets.length) <+: serializeSignal m :=
      prefix_putTargets
    rw [length_serializeSignal, targetCount_eq hheader, UInt32.toNat_ofNat_of_lt' hlen]
  · intro h
    have hversion := u32.get_of_le b 0 (show 0 + 4 ≤ b.length by omega)
    have hseq := u64.get_of_le b 4 (show 4 + 8 ≤ b.length by omega)
    have hgen := i64.get_of_le b 12 (show 12 + 8 ≤ b.length by omega)
    have hid := u16.get_of_le b 20 (show 20 + 2 ≤ b.length by omega)
    have hn := u32.get_of_le b 22 (show 22 + 4 ≤ b.length by omega)
    obtain ⟨hheader, -⟩ := getHeader_eq_some_iff.1 ⟨hversion, hseq, hgen, hid, hn⟩
    have hcount := targetCount_eq hheader
    obtain ⟨targets, htargets⟩ := getTargets_of_le (targetCount b) 26 h.ge
    rw [← h] at htargets
    -- every read stays within the buffer, and the last one ends where it does
    have hout : deserializeSignal b = some
        { schemaVersion := u32.decode ((b.drop 0).take 4)
          sequence := u64.decode ((b.drop 4).take 8)
          generatedAt := i64.decode ((b.drop 12).take 8)
          strategyId := u16.decode ((b.drop 20).take 2)
          targets := targets } := by
      simp only [deserializeSignal, Option.bind_eq_bind, Option.bind_eq_some_iff, Prod.exists]
      refine ⟨_, _, hversion, _, _, hseq, _, _, hgen, _, _, hid, _, _, hn, targets, b.length, ?_,
        if_pos rfl⟩
      rw [← hcount]
      exact htargets
    exact Option.isSome_iff_exists.2 ⟨_, hout⟩

/-- **The codec is a bijection.** Every message with fewer than `2 ^ 32` targets survives the round
trip, every accepted buffer is the encoding of what it decodes to, and the accepted buffers are
those of the length that the count at offset 22 announces. -/
theorem codec_bijective :
    (∀ m : SignalMessage, m.targets.length < 2 ^ 32 →
      deserializeSignal (serializeSignal m) = some m) ∧
    (∀ (b : List UInt8) (out : SignalMessage), deserializeSignal b = some out →
      serializeSignal out = b) ∧
    ∀ b : List UInt8, (deserializeSignal b).isSome ↔ b.length = 26 + 10 * targetCount b :=
  ⟨fun _ h => deserializeSignal_eq_some_iff.2 ⟨h, rfl⟩,
    fun _ _ h => (deserializeSignal_eq_some_iff.1 h).2, fun _ => isSome_deserializeSignal_iff⟩

end Message

end Wire

end Oms
