import Oms.Netting.Settle
import Oms.SignalProducer.Loop

/-!
# From the producer to the books of the strategies

`signal_demo.cpp`: the signal pipeline end to end. Every cycle the producer's messages go through
the codec into a queue, from there through the gate into the netting engine, and the net orders are
filled in full.

* `SignalDemo`, `boot`, `cycle`: the program;
* `Ready`, `receive_produceEach`: the gate takes every message of a cycle, also of the first one
  after the messages it refused at start-up;
* `demo_on_target`: after any number of cycles every message was accepted, and every global
  position is the sum of the targets that were published last.
-/

namespace Oms

namespace Wire

/-! ### The program -/

/-- The parts of the program, and what it counts. -/
structure SignalDemo where
  producer : SignalProducer
  gate : SignalGate
  netting : NettingEngine := {}
  accepted : ℕ := 0
  rejected : ℕ := 0
  targetLines : ℕ := 0
  netOrders : ℕ := 0

/-- The messages that arrive in the queue. `none` when a round trip of the codec fails, and the
program ends. -/
def throughCodec : List SignalMessage → Option (List SignalMessage)
  | [] => some []
  | m :: ms =>
    match deserializeSignal (serializeSignal m) with
    | none => none
    | some decoded => (throughCodec ms).map (decoded :: ·)

/-- Set the targets of a message. -/
def setBook (e : NettingEngine) (m : SignalMessage) : NettingEngine :=
  m.targets.foldl (fun e t => e.setTarget m.strategyId t.instrument t.signedTarget.toInt) e

namespace SignalDemo

/-- The gate boots in do-not-trade. -/
def start (pcfg : SignalProducerConfig) (gcfg : SignalGateConfig) : SignalDemo where
  producer := .new pcfg
  gate := { cfg := gcfg }

/-- A first cycle, of which the gate is shown one message. Without messages the source reads beyond
the end of the list; here there is no verdict. -/
def boot (now : Int64) (d : SignalDemo) : Option SignalVerdict × SignalDemo :=
  let (ms, producer) := d.producer.produceCycle now
  match ms with
  | [] => (none, { d with producer := producer })
  | m :: _ =>
    let (verdict, gate) := check d.gate m now
    (some verdict, { d with producer := producer, gate := gate })

/-- Startup reconciliation has cleared. -/
def enableTrading (d : SignalDemo) : SignalDemo := { d with gate := d.gate.enableTrading true }

/-- One message of the queue. -/
def receive (now : Int64) (d : SignalDemo) (m : SignalMessage) : SignalDemo :=
  let (verdict, gate) := check d.gate m now
  if verdict = .Accept ∨ verdict = .GapAcceptedLogged then
    { d with
      gate := gate
      netting := setBook d.netting m
      accepted := d.accepted + 1
      targetLines := d.targetLines + m.targets.length }
  else { d with gate := gate, rejected := d.rejected + 1 }

def cycle (prices : Finmap fun _ : InstrumentId => Price) (d : SignalDemo) (now : Int64) :
    Option SignalDemo :=
  let (ms, producer) := d.producer.produceCycle now
  (throughCodec ms).map fun queue =>
    let d := queue.foldl (receive now) { d with producer := producer }
    let (netting, orders) := d.netting.computeCycle prices
    { d with
      netting := netting.fillOrders orders prices
      netOrders := d.netOrders + orders.length }

/-- The cycles, each at its own time. -/
def run (prices : Finmap fun _ : InstrumentId => Price) :
    SignalDemo → List Int64 → Option SignalDemo
  | d, [] => some d
  | d, now :: nows => (d.cycle prices now).bind fun d => run prices d nows

end SignalDemo

/-! ### One message -/

/-- The producer numbers the next message of a strategy `k`, and the gate has not seen the strategy
or accepted the message before. -/
structure Ready (p : SignalProducer) (g : SignalGate) (k : ℕ) (s : StrategyId) : Prop where
  next : (p.seq.get s).toNat = k
  remembers : Remembers g s none ∨ Remembers g s (lastBefore k)

section Message

variable {p : SignalProducer} {g : SignalGate} {per : UInt32} {now : Int64} {s : StrategyId}
variable {k : ℕ}

/-- The gate accepts the message it is ready for. -/
theorem check_ready (per : UInt32) (now : Int64) (hon : g.tradingEnabled = true)
    (hmatched : Matched p.cfg g.cfg) (hk : k + g.cfg.seqModulo.toNat < 2 ^ 64)
    (h : Ready p g k s) :
    check g (p.produce per now s).1 now =
      (.Accept, g.accept (p.produce per now s).1.exact now.toInt) := by
  rcases h.remembers with hunseen | hremembers
  · obtain ⟨-, hsmall⟩ := produce_targets per now s hmatched.nonneg
      (hmatched.within.trans_lt hmatched.bounded)
    have hnow : (p.produce per now s).1.generatedAt = now := rfl
    rw [check_eq_checkSequence_of_small hon hmatched.age hnow
      (fun t ht => (hsmall t ht).trans hmatched.within) hmatched.bounded]
    exact checkSequence_unseen hunseen
  · exact check_produced per now hon hmatched hk ⟨h.next, hremembers⟩

/-- It is ready for the next one of that strategy. -/
theorem ready_self (hm : 0 < g.cfg.seqModulo.toNat) (hk : k + g.cfg.seqModulo.toNat < 2 ^ 64)
    (h : Ready p g k s) : Ready (p.produce per now s).2
      (g.accept (p.produce per now s).1.exact now.toInt) (k + 1) s := by
  have hseq : (p.produce per now s).1.exact.sequence.toNat = k := h.next
  constructor
  · show ((p.seq.insert s (p.seq.get s + 1)).get s).toNat = k + 1
    rw [Finmap.get_insert_self, UInt64.toNat_add, h.next]
    exact Nat.mod_eq_of_lt (by show k + 1 < 2 ^ 64; omega)
  · have hfit : g.cfg.Fits ((p.produce per now s).1.exact, now.toInt) := by
      refine Or.inl ?_
      show (p.produce per now s).1.exact.sequence.toNat + g.cfg.seqModulo.toNat < 2 ^ 64
      rw [hseq]
      exact hk
    have hremembers : Remembers (g.accept (p.produce per now s).1.exact now.toInt) s
        (some (p.produce per now s).1.exact.sequence.toNat) := remembers_accept hm hfit rfl rfl
    rw [hseq] at hremembers
    exact Or.inr hremembers

/-- It stays as ready for the others. -/
theorem ready_other {s' : StrategyId} (hne : s' ≠ s) (h : Ready p g k s') :
    Ready (p.produce per now s).2 (g.accept (p.produce per now s).1.exact now.toInt) k s' := by
  have hget : (g.accept (p.produce per now s).1.exact now.toInt).producers.get s' =
      g.producers.get s' := Finmap.get_insert_of_ne _ _ hne
  constructor
  · show ((p.seq.insert s (p.seq.get s + 1)).get s').toNat = k
    rw [Finmap.get_insert_of_ne _ _ hne]
    exact h.next
  · exact h.remembers.imp (fun hold => hold.congr rfl hget) fun hold => hold.congr rfl hget

end Message

/-! ### One cycle -/

/-- What the messages of a queue do when the gate accepts them all. -/
structure Taken (d d' : SignalDemo) (ms : List SignalMessage) : Prop where
  producer : d'.producer = d.producer
  netting : d'.netting = ms.foldl setBook d.netting
  accepted : d'.accepted = d.accepted + ms.length
  rejected : d'.rejected = d.rejected
  cfg : d'.gate.cfg = d.gate.cfg
  enabled : d'.gate.tradingEnabled = true

section Cycle

variable {p : SignalProducer} {d : SignalDemo} {k : ℕ}

/-- **A cycle passes the codec and the gate**, which is ready for the next one. -/
theorem receive_produceEach (per : UInt32) (now : Int64) {strategies : List StrategyId}
    (hnodup : strategies.Nodup) (hon : d.gate.tradingEnabled = true)
    (hmatched : Matched p.cfg d.gate.cfg) (hk : k + d.gate.cfg.seqModulo.toNat < 2 ^ 64)
    (h : ∀ s ∈ strategies, Ready p d.gate k s) :
    let ms := (p.produceEach per now strategies).1
    let p' := (p.produceEach per now strategies).2
    let d' := ms.foldl (SignalDemo.receive now) d
    throughCodec ms = some ms ∧ Taken d d' ms ∧
      (∀ s ∈ strategies, Ready p' d'.gate (k + 1) s) ∧
      ∀ s ∉ strategies, ∀ k', Ready p d.gate k' s → Ready p' d'.gate k' s := by
  induction strategies generalizing p d with
  | nil =>
    exact ⟨rfl, ⟨rfl, rfl, rfl, rfl, rfl, hon⟩, fun s hs => absurd hs List.not_mem_nil,
      fun _ _ _ hready => hready⟩
  | cons s strategies ih =>
    have hm : 0 < d.gate.cfg.seqModulo.toNat :=
      Nat.zero_lt_of_lt (UInt64.lt_iff_toNat_lt.1 hmatched.threshold)
    have hs := h s List.mem_cons_self
    obtain ⟨hnot, hnodup'⟩ := List.nodup_cons.1 hnodup
    have hlen := (produce_targets per now s hmatched.nonneg
      (hmatched.within.trans_lt hmatched.bounded)).1
    -- the first message is decoded and accepted
    have hcodec : deserializeSignal (serializeSignal (p.produce per now s).1) =
        some (p.produce per now s).1 := deserializeSignal_eq_some_iff.2 ⟨hlen, rfl⟩
    have hfirst : d.receive now (p.produce per now s).1 = { d with
        gate := d.gate.accept (p.produce per now s).1.exact now.toInt
        netting := setBook d.netting (p.produce per now s).1
        accepted := d.accepted + 1
        targetLines := d.targetLines + (p.produce per now s).1.targets.length } := by
      unfold SignalDemo.receive
      rw [check_ready per now hon hmatched hk hs]
      exact if_pos (Or.inl rfl)
    -- and the gate is as ready for the others as it was
    have hothers : ∀ s' ∈ strategies, Ready (p.produce per now s).2
        (d.receive now (p.produce per now s).1).gate k s' := fun s' hs' => by
      rw [hfirst]
      exact ready_other (fun heq => hnot (heq ▸ hs')) (h s' (List.mem_cons_of_mem _ hs'))
    have hgate : (d.receive now (p.produce per now s).1).gate.tradingEnabled = true ∧
        (d.receive now (p.produce per now s).1).gate.cfg = d.gate.cfg := by
      rw [hfirst]
      exact ⟨hon, rfl⟩
    obtain ⟨hrest, htaken, hserved, hunserved⟩ := ih hnodup' hgate.1
      (by rw [hgate.2]; exact hmatched) (by rw [hgate.2]; exact hk) hothers
    have hproduced : p.produceEach per now (s :: strategies) =
        ((p.produce per now s).1 :: ((p.produce per now s).2.produceEach per now strategies).1,
          ((p.produce per now s).2.produceEach per now strategies).2) := rfl
    rw [hproduced]
    refine ⟨?_, ⟨?_, ?_, ?_, ?_, htaken.cfg.trans hgate.2, htaken.enabled⟩, ?_, ?_⟩
    · rw [throughCodec, hcodec]
      dsimp only
      rw [hrest]
      rfl
    · refine htaken.producer.trans ?_
      rw [hfirst]
    · refine htaken.netting.trans ?_
      rw [hfirst]
      rfl
    · refine htaken.accepted.trans ?_
      rw [hfirst, List.length_cons]
      dsimp only
      omega
    · refine htaken.rejected.trans ?_
      rw [hfirst]
    · intro s' hs'
      rcases List.mem_cons.1 hs' with rfl | hs'
      · refine hunserved _ hnot _ ?_
        rw [hfirst]
        exact ready_self hm hk hs
      · exact hserved s' hs'
    · intro s' hs' k' hready
      obtain ⟨hne, hs'⟩ := not_or.1 fun hor => hs' (List.mem_cons.2 hor)
      refine hunserved s' hs' k' ?_
      rw [hfirst]
      exact ready_other hne hready

/-- A book sets targets only. -/
theorem targeting_setBook {e : NettingEngine} (h : e.Targeting) (m : SignalMessage) :
    (setBook e m).Targeting := by
  unfold setBook
  induction m.targets generalizing e with
  | nil => exact h
  | cons t targets ih => exact ih (h.setTarget m.strategyId t.instrument t.signedTarget.toInt)

theorem targeting_setBooks {e : NettingEngine} (h : e.Targeting) (ms : List SignalMessage) :
    (ms.foldl setBook e).Targeting := by
  induction ms generalizing e with
  | nil => exact h
  | cons m ms ih => exact ih (targeting_setBook h m)

/-- The targets after some books, the later ones over the earlier ones. -/
def published (targets : Finmap fun _ : UInt64 => Quantity) (ms : List SignalMessage) :
    Finmap fun _ : UInt64 => Quantity :=
  ms.foldl (fun targets m => m.targets.foldl (fun targets t =>
    targets.insert (NettingEngine.key m.strategyId t.instrument) t.signedTarget.toInt) targets)
      targets

theorem targets_setBooks (e : NettingEngine) (ms : List SignalMessage) :
    (ms.foldl setBook e).targets = published e.targets ms := by
  have hbook : ∀ (m : SignalMessage) (e : NettingEngine), (setBook e m).targets =
      m.targets.foldl (fun targets t => targets.insert
        (NettingEngine.key m.strategyId t.instrument) t.signedTarget.toInt) e.targets := by
    intro m e
    unfold setBook
    induction m.targets generalizing e with
    | nil => rfl
    | cons t targets ih => exact ih _
  induction ms generalizing e with
  | nil => rfl
  | cons m ms ih =>
    refine (ih _).trans ?_
    rw [hbook]
    rfl

end Cycle

/-! ### Any number of cycles -/

/-- After `k` cycles of the producer nothing is left to trade, and the gate is ready. -/
structure Tracking (pcfg : SignalProducerConfig) (gcfg : SignalGateConfig) (k : ℕ)
    (d : SignalDemo) : Prop where
  producer : d.producer.cfg = pcfg
  gate : d.gate.cfg = gcfg
  enabled : d.gate.tradingEnabled = true
  netting : d.netting.OnTarget
  rejected : d.rejected = 0
  ready : ∀ s ∈ SignalProducer.strategies pcfg, Ready d.producer d.gate k s

section Run

variable {pcfg : SignalProducerConfig} {gcfg : SignalGateConfig}

theorem cycle_tracking (hinst : pcfg.instruments ≠ []) (hnum : pcfg.numStrategies < 65535)
    (hmatched : Matched pcfg gcfg) {k : ℕ} (hk : k + gcfg.seqModulo.toNat < 2 ^ 64)
    {d : SignalDemo} (h : Tracking pcfg gcfg k d) (prices : Finmap fun _ : InstrumentId => Price)
    (now : Int64) :
    ∃ d', d.cycle prices now = some d' ∧ Tracking pcfg gcfg (k + 1) d' ∧
      d'.producer = (d.producer.produceCycle now).2 ∧
      d'.accepted = d.accepted + pcfg.numStrategies.toNat ∧
      d'.netting.targets = published d.netting.targets (d.producer.produceCycle now).1 := by
  have hcycle : d.producer.produceCycle now =
      d.producer.produceEach pcfg.per now (SignalProducer.strategies pcfg) := by
    rw [produceCycle_eq_per now (by rwa [h.producer]), h.producer]
  let d₀ : SignalDemo := { d with producer := (d.producer.produceCycle now).2 }
  obtain ⟨hcodec, htaken, hready, -⟩ := receive_produceEach (d := d₀) (p := d.producer) (k := k)
    pcfg.per now (nodup_strategies hnum) h.enabled (by rw [h.producer, h.gate]; exact hmatched)
    (by rw [h.gate]; exact hk) h.ready
  rw [← hcycle] at hcodec htaken hready
  let d₁ := (d.producer.produceCycle now).1.foldl (SignalDemo.receive now) d₀
  let d₂ : SignalDemo := { d₁ with
    netting := (d₁.netting.computeCycle prices).1.fillOrders (d₁.netting.computeCycle prices).2
      prices
    netOrders := d₁.netOrders + (d₁.netting.computeCycle prices).2.length }
  have hd₂ : d.cycle prices now = some d₂ := by
    unfold SignalDemo.cycle
    dsimp only
    rw [hcodec]
    rfl
  have htargeting : d₁.netting.Targeting := by
    rw [htaken.netting]
    exact targeting_setBooks h.netting.toTargeting _
  obtain ⟨hon, htargets⟩ := NettingEngine.onTarget_cycle htargeting prices
  have hids := congrArg List.length (map_strategyId_produceEach d.producer pcfg.per now
    (SignalProducer.strategies pcfg))
  have hlength : (d.producer.produceCycle now).1.length = pcfg.numStrategies.toNat := by
    rw [hcycle, ← List.length_map, hids, length_strategies]
  have hproducer : d₂.producer = (d.producer.produceCycle now).2 := htaken.producer
  refine ⟨d₂, hd₂, ⟨?_, htaken.cfg.trans h.gate, htaken.enabled, hon,
    htaken.rejected.trans h.rejected, ?_⟩, hproducer, ?_, ?_⟩
  · rw [hproducer, cfg_produceCycle now (by rwa [h.producer]), h.producer]
  · rw [hproducer]
    exact hready
  · exact htaken.accepted.trans (by rw [hlength])
  · refine htargets.trans ?_
    rw [htaken.netting]
    exact targets_setBooks _ _

theorem run_tracking (hinst : pcfg.instruments ≠ []) (hnum : pcfg.numStrategies < 65535)
    (hmatched : Matched pcfg gcfg) {k : ℕ} {nows : List Int64}
    (hk : k + nows.length < 2 ^ 64 - gcfg.seqModulo.toNat) {d : SignalDemo}
    (h : Tracking pcfg gcfg k d) (prices : Finmap fun _ : InstrumentId => Price) :
    ∃ d', d.run prices nows = some d' ∧ Tracking pcfg gcfg (k + nows.length) d' ∧
      d'.accepted = d.accepted + nows.length * pcfg.numStrategies.toNat ∧
      d'.netting.targets = published d.netting.targets (d.producer.cycles nows).flatten := by
  induction nows generalizing k d with
  | nil => exact ⟨d, rfl, h, by simp, rfl⟩
  | cons now nows ih =>
    rw [List.length_cons] at hk
    obtain ⟨d₁, hd₁, htracking, hproducer, haccepted, htargets⟩ :=
      cycle_tracking hinst hnum hmatched (by omega) h prices now
    obtain ⟨d', hd', htracking', haccepted', htargets'⟩ := ih (by omega) htracking
    refine ⟨d', ?_, ?_, ?_, ?_⟩
    · rw [SignalDemo.run, hd₁]
      exact hd'
    · rw [List.length_cons, ← Nat.add_assoc, Nat.add_right_comm]
      exact htracking'
    · rw [haccepted', haccepted, List.length_cons, Nat.succ_mul]
      omega
    · rw [htargets', htargets, hproducer, SignalProducer.cycles, List.flatten_cons]
      unfold published
      rw [List.foldl_append]

/-- The gate keeps nothing of the message it is shown at start-up, and refuses it. -/
theorem boot_eq (pcfg : SignalProducerConfig) (gcfg : SignalGateConfig) (now : Int64) :
    ∃ verdict log, (SignalDemo.start pcfg gcfg).boot now = (verdict,
        { SignalDemo.start pcfg gcfg with
          producer := ((SignalProducer.new pcfg).produceCycle now).2
          gate := { cfg := gcfg, log := log } }) ∧
      ∀ v ∈ verdict, v = .RejectDNT := by
  have hproducer : (SignalDemo.start pcfg gcfg).producer = .new pcfg := rfl
  unfold SignalDemo.boot
  rw [hproducer]
  dsimp only
  cases ((SignalProducer.new pcfg).produceCycle now).1 with
  | nil => exact ⟨none, [], rfl, fun v hv => absurd hv (by simp)⟩
  | cons m ms => exact ⟨_, _, rfl, fun v hv => (Option.some.inj hv).symm⟩

/-- The first cycle is refused, and leaves the gate ready for the second. -/
theorem boot_tracking (hinst : pcfg.instruments ≠ []) (hnum : pcfg.numStrategies < 65535)
    (gcfg : SignalGateConfig) (now : Int64) :
    let d := ((SignalDemo.start pcfg gcfg).boot now).2
    Tracking pcfg gcfg 1 d.enableTrading ∧
      d.producer = ((SignalProducer.new pcfg).produceCycle now).2 ∧
      d.accepted = 0 ∧ d.netting = {} := by
  obtain ⟨verdict, log, hboot, -⟩ := boot_eq pcfg gcfg now
  rw [hboot]
  refine ⟨⟨cfg_produceCycle (p := .new pcfg) now hinst, rfl, rfl, NettingEngine.onTarget_init, rfl,
    fun s hs => ⟨?_, Or.inl ?_⟩⟩, rfl, rfl, rfl⟩
  · have hnext : ((SignalProducer.new pcfg).produceCycle now).2.seq.get s = 0 + 1 := by
      rw [produceCycle_eq_per (p := .new pcfg) now hinst]
      exact (seq_produceEach_of_mem (nodup_strategies hnum) hs).trans
        (congrArg (· + 1) (Finmap.get_empty _))
    exact congrArg UInt64.toNat hnext
  · show ((∅ : Finmap fun _ : StrategyId => Producer).get s).seen = false
    rw [Finmap.get_empty]
    rfl

/-- **The pipeline ends on target.** For every matching configuration of producer and gate, the
message shown at start-up is refused, and after any number of cycles, whatever the prices, every
message was accepted, the invariant holds, the targets are those that were published last, and the
global position of every instrument is their sum. -/
theorem demo_on_target (hinst : pcfg.instruments ≠ []) (hnum : pcfg.numStrategies < 65535)
    (hmatched : Matched pcfg gcfg) (now : Int64) (nows : List Int64)
    (hcycles : 1 + nows.length < 2 ^ 64 - gcfg.seqModulo.toNat)
    (prices : Finmap fun _ : InstrumentId => Price) :
    let boot := (SignalDemo.start pcfg gcfg).boot now
    (∀ v ∈ boot.1, v = .RejectDNT) ∧
      ∃ d, boot.2.enableTrading.run prices nows = some d ∧
        d.accepted = nows.length * pcfg.numStrategies.toNat ∧ d.rejected = 0 ∧
        d.netting.checkInvariant = true ∧
        d.netting.targets =
          published ∅ ((SignalProducer.new pcfg).cycles (now :: nows)).tail.flatten ∧
        ∀ inst, d.netting.globalPosition inst =
          ∑ s ∈ d.netting.strategies, d.netting.targets.get (NettingEngine.key s inst) := by
  intro boot
  obtain ⟨hboot, hproducer, hzero, hempty⟩ := boot_tracking hinst hnum gcfg now
  obtain ⟨d, hd, htracking, haccepted, htargets⟩ :=
    run_tracking hinst hnum hmatched hcycles hboot prices
  refine ⟨?_, d, hd, ?_, htracking.rejected, htracking.netting.balanced.checkInvariant, ?_,
    htracking.netting.global_eq⟩
  · obtain ⟨verdict, log, heq, hrefused⟩ := boot_eq pcfg gcfg now
    show ∀ v ∈ ((SignalDemo.start pcfg gcfg).boot now).1, v = .RejectDNT
    rw [heq]
    exact hrefused
  · refine haccepted.trans ?_
    show boot.2.accepted + _ = _
    rw [hzero, Nat.zero_add]
  · refine htargets.trans ?_
    show published boot.2.netting.targets (boot.2.producer.cycles nows).flatten = _
    rw [hempty, hproducer]
    rfl

/-- Two strategies over two instruments: the message at start-up, and two cycles. -/
theorem demo_on_target_two :
    let pcfg : SignalProducerConfig :=
      { numStrategies := 2, instruments := [1, 2], targetsPerStrategy := 1 }
    let boot := (SignalDemo.start pcfg {}).boot 10
    (∀ v ∈ boot.1, v = .RejectDNT) ∧
      ∃ d, boot.2.enableTrading.run ∅ [20, 30] = some d ∧ d.accepted = 2 * 2 ∧ d.rejected = 0 ∧
        d.netting.checkInvariant = true ∧
        d.netting.targets =
          published ∅ ((SignalProducer.new pcfg).cycles [10, 20, 30]).tail.flatten ∧
        ∀ inst, d.netting.globalPosition inst =
          ∑ s ∈ d.netting.strategies, d.netting.targets.get (NettingEngine.key s inst) :=
  demo_on_target (by simp) (by decide) ⟨by decide, by decide, by decide, by decide, by decide⟩
    10 [20, 30] (by decide) ∅

end Run

end Wire

end Oms
