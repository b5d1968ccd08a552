import Oms.Metrics.ArrivalMids
import Oms.RingBuffer.Percentile

/-!
# The summary of the collector

A report shows percentiles of what the collector sampled last, and the counts and sums of all that
it ever sampled.

* `Distribution.p50`, …: what a row of the summary is made of; `Distribution.InOrder`;
* `Distribution.Sampled`: a distribution that was fed with some samples; `sampled_row`: its row;
* `Collected`, `step_collected`: each distribution of the collector is fed with some samples;
* `summary_in_order`: every row of the summary, after every run.
-/

namespace Oms

open OrderManager

/-! ### Rows -/

namespace Distribution

variable (rnd : ℚ → ℚ) (d : Distribution)

/-- The number of samples in the window. -/
def count : ℕ := d.buf.size

def p (q : ℚ) : ℤ := d.buf.percentile rnd q

def p50 : ℤ := d.p rnd (rnd (1 / 2))

def p99 : ℤ := d.p rnd (rnd (99 / 100))

def p999 : ℤ := d.p rnd (rnd (999 / 1000))

def min : ℤ := d.buf.percentile rnd 0

def max : ℤ := d.buf.percentile rnd 1

/-- The distribution was fed with some samples, and with nothing else. -/
structure Sampled (capacity : ℕ) (samples : List ℤ) (d : Distribution) : Prop where
  size : d.buf.capacity = capacity
  holds : d.buf.Holds samples
  sum : d.sum = samples.sum
  countAll : d.countAll = samples.length

end Distribution

section Sampled

variable {rnd : ℚ → ℚ} {d : Distribution} {capacity : ℕ} {samples : List ℤ}

theorem sampled_new (capacity : ℕ) : Distribution.Sampled capacity [] { buf := .new capacity } where
  size := rfl
  holds := RingBuffer.holds_new capacity
  sum := rfl
  countAll := rfl

theorem Distribution.Sampled.add (h : d.Sampled capacity samples) (hcap : 0 < capacity) (x : ℤ) :
    (d.add x).Sampled capacity (samples ++ [x]) where
  size := h.size
  holds := h.holds.push (h.size ▸ hcap) x
  sum := by
    rw [List.sum_append, List.sum_singleton, ← h.sum]
    rfl
  countAll := by
    rw [List.length_append, ← h.countAll]
    rfl

/-- The ring holds the last samples, in some order. -/
theorem Distribution.Sampled.window (h : d.Sampled capacity samples) :
    d.buf.buf.Perm (samples.rtake capacity) := h.size ▸ h.holds.perm

theorem sampled_count (h : d.Sampled capacity samples) :
    d.count = min samples.length capacity := by
  rw [← h.size]
  exact h.holds.size

/-- A row is in order: its figures increase from the minimum to the maximum, and these two are the
smallest and the greatest sample of the window. -/
structure Distribution.InOrder (rnd : ℚ → ℚ) (window : List ℤ) (d : Distribution) : Prop where
  low : d.min rnd ≤ d.p50 rnd
  median : d.p50 rnd ≤ d.p99 rnd
  tail : d.p99 rnd ≤ d.p999 rnd
  high : d.p999 rnd ≤ d.max rnd
  bounds : ∀ x ∈ window, d.min rnd ≤ x ∧ x ≤ d.max rnd
  attained : window ≠ [] → d.min rnd ∈ window ∧ d.max rnd ∈ window

/-- **A row of small samples is in order.** -/
theorem sampled_row (hrnd : Rounding 53 rnd) (h : d.Sampled capacity samples)
    (hsize : capacity ≤ 2 ^ 53) (hsmall : ∀ x ∈ samples.rtake capacity, |x| ≤ 2 ^ 52) :
    d.InOrder rnd (samples.rtake capacity) := by
  have hperm : d.buf.buf.Perm (samples.rtake capacity) := h.window
  have hring : d.buf.Small := by
    refine ⟨?_, fun v hv => hsmall v (hperm.mem_iff.1 hv)⟩
    rw [h.holds.size_eq, h.size, List.rtake, List.length_drop]
    omega
  have hmono := hring.percentile_mono hrnd
  have hzero : ∀ {q : ℚ}, 0 ≤ q → (0 : ℚ) ≤ rnd q := fun h => hrnd.rnd_nonneg h
  have hone : ∀ {q : ℚ}, q ≤ 1 → rnd q ≤ (1 : ℚ) := fun h => hrnd.rnd_le_one h
  refine ⟨hmono (hzero (by norm_num)), hmono (hrnd.mono (by norm_num)),
    hmono (hrnd.mono (by norm_num)), hmono (hone (by norm_num)), fun x hx => ?_, fun hne => ?_⟩
  · have hmem : x ∈ d.buf.buf := hperm.mem_iff.2 hx
    have hne := List.ne_nil_of_mem hmem
    unfold Distribution.min Distribution.max
    rw [RingBuffer.percentile_low hne (le_refl 0), RingBuffer.percentile_high hne (le_refl 1)]
    exact ⟨RingBuffer.ranked_zero_le hmem, RingBuffer.le_ranked_last hmem⟩
  · have hbuf : d.buf.buf ≠ [] := fun hnil => hne (hnil ▸ hperm).nil_eq.symm
    unfold Distribution.min Distribution.max
    rw [RingBuffer.percentile_low hbuf (le_refl 0), RingBuffer.percentile_high hbuf (le_refl 1)]
    exact ⟨hperm.mem_iff.1 (RingBuffer.ranked_mem hbuf _),
      hperm.mem_iff.1 (RingBuffer.ranked_mem hbuf _)⟩

end Sampled

/-! ### The collector -/

/-- The distributions of the collector. -/
def MetricsCollector.distributions {V : Type} (m : MetricsCollector V) : List Distribution :=
  [m.slipArrival, m.slipVwap, m.ttf, m.ackLatency]

/-- The distribution was fed with some samples. -/
def Distribution.Fed (d : Distribution) : Prop := ∃ samples, d.Sampled 1024 samples

theorem Distribution.Fed.add {d : Distribution} (h : d.Fed) (x : ℤ) : (d.add x).Fed := by
  obtain ⟨samples, h⟩ := h
  exact ⟨samples ++ [x], h.add (by norm_num) x⟩

/-- Every distribution of the collector was fed with some samples. -/
structure Collected {V : Type} (m : MetricsCollector V) : Prop where
  slipArrival : m.slipArrival.Fed
  slipVwap : m.slipVwap.Fed
  ttf : m.ttf.Fed
  ackLatency : m.ackLatency.Fed

theorem Collected.fed {V : Type} {m : MetricsCollector V} (h : Collected m) :
    ∀ d ∈ m.distributions, d.Fed := by
  intro d hd
  simp only [MetricsCollector.distributions, List.mem_cons, List.not_mem_nil, or_false] at hd
  rcases hd with rfl | rfl | rfl | rfl
  · exact h.slipArrival
  · exact h.slipVwap
  · exact h.ttf
  · exact h.ackLatency

section Listener

variable {V : Type} {rnd : ℚ → ℚ} {m : MetricsCollector V}

theorem collected_fresh (mds : Option (MarketDataSource V)) :
    Collected ({ mds := mds } : MetricsCollector V) where
  slipArrival := ⟨[], sampled_new 1024⟩
  slipVwap := ⟨[], sampled_new 1024⟩
  ttf := ⟨[], sampled_new 1024⟩
  ackLatency := ⟨[], sampled_new 1024⟩

theorem Collected.captureArrival (h : Collected m) (e : OrderEvent) (v : V) :
    Collected (m.captureArrival e v) := by
  unfold MetricsCollector.captureArrival
  split
  · exact h
  · split_ifs
    · exact h
    · exact ⟨h.slipArrival, h.slipVwap, h.ttf, h.ackLatency⟩

/-- An event feeds the distributions, or leaves them. -/
theorem Collected.onOrderEvent (h : Collected m) (e : OrderEvent) (om : OrderManager) (v : V) :
    Collected (m.onOrderEvent rnd e om v) := by
  unfold MetricsCollector.onOrderEvent
  split
  · exact h
  · split_ifs
    · exact h
    split
    · have hcaptured := h.captureArrival e v
      exact ⟨hcaptured.slipArrival, hcaptured.slipVwap, hcaptured.ttf,
        hcaptured.ackLatency.add _⟩
    · unfold MetricsCollector.onFilled
      refine ⟨?_, ?_, ?_, h.ackLatency⟩
      all_goals dsimp only
      · by_cases harrival : 0 < m.arrivalMid.get e.internalId
        · rw [if_pos harrival]
          exact h.slipArrival.add _
        · rw [if_neg harrival]
          exact h.slipArrival
      · by_cases hvwap : 0 < m.refVwap.get e.instrument
        · rw [if_pos hvwap]
          exact h.slipVwap.add _
        · rw [if_neg hvwap]
          exact h.slipVwap
      · split_ifs
        · exact h.ttf.add _
        · exact h.ttf
    · exact h

end Listener

section Runs

variable {W V : Type} {rnd : ℚ → ℚ} {E : Env W}

theorem step_collected {s : MeteredState W V} (h : Collected s.metrics) (op : MetricsOp V) :
    Collected ((metricsMachine rnd E).step s op).metrics := by
  cases op with
  | oms op =>
    show Collected (s.step (E.listening (hearMetrics rnd)) op).metrics
    rw [metrics_step]
    cases announced s.om op with
    | none => exact h
    | some x => exact h.onOrderEvent x.1 x.2 s.world.2.1
  | market v => exact h
  | referenceVwap inst vwap => exact ⟨h.slipArrival, h.slipVwap, h.ttf, h.ackLatency⟩

theorem run_collected (capacity : PoolCapacity) (w : W) (v : V)
    (mds : Option (MarketDataSource V)) (ops : List (MetricsOp V)) :
    Collected ((metricsMachine rnd E).run (.fresh capacity w v mds) ops).metrics :=
  Machine.run_invariant (M := metricsMachine rnd E) (G := fun _ _ => True)
    (I := fun s => Collected s.metrics) (fun _ op h _ => step_collected h op)
    (collected_fresh mds) (Machine.admits_true _ _ _)

/-- **Every row of the summary is in order.** After every run of a manager with a collector, each
distribution was fed with some samples: its sum and total count are those of all of them, its ring
holds the last 1024, and its count is the number of these. As long as the samples in the ring are
exact in doubles, the figures of its row increase from the smallest of them over the median and the
tail to the greatest. -/
theorem summary_in_order (hrnd : Rounding 53 rnd) (E : Env W) (capacity : PoolCapacity) (w : W)
    (v : V) (mds : Option (MarketDataSource V)) (ops : List (MetricsOp V)) :
    let s := (metricsMachine rnd E).run (.fresh capacity w v mds) ops
    ∀ d ∈ s.metrics.distributions, ∃ samples : List ℤ,
      d.Sampled 1024 samples ∧ d.buf.buf.Perm (samples.rtake 1024) ∧
        d.count = min samples.length 1024 ∧
        ((∀ x ∈ samples.rtake 1024, |x| ≤ 2 ^ 52) → d.InOrder rnd (samples.rtake 1024)) := by
  intro s d hd
  obtain ⟨samples, h⟩ := (run_collected capacity w v mds ops).fed d hd
  exact ⟨samples, h, h.window, sampled_count h, sampled_row hrnd h (by norm_num)⟩

end Runs

/-- Two orders are filled, after 5 and after 9 units of time. -/
def twoFilled : List (MetricsOp Unit) :=
  [.oms (.submit { instrument := 7, size := 10, price := 5 }),
    .oms (.submit { instrument := 7, size := 10, price := 5 }),
    .oms (.fill (encodeOrderId 0 0 0 1) 10 5 1 5), .oms (.fill (encodeOrderId 0 0 1 2) 10 5 1 9)]

/-- The row of their times to fill is in order, and shows 5, 7 and 9. -/
theorem summary_in_order_two :
    let s := (metricsMachine id acceptingEnv).run (.fresh twoSlots () () none) twoFilled
    ∃ samples : List ℤ, s.metrics.ttf.Sampled 1024 samples ∧
      s.metrics.ttf.InOrder id (samples.rtake 1024) ∧
      (s.metrics.ttf.min id, s.metrics.ttf.p50 id, s.metrics.ttf.max id) = (5, 7, 9) := by
  intro s
  have hrnd : Rounding 53 (id : ℚ → ℚ) := ⟨monotone_id, fun _ _ => rfl⟩
  have httf : s.metrics.ttf ∈ s.metrics.distributions :=
    List.mem_cons_of_mem _ (List.mem_cons_of_mem _ List.mem_cons_self)
  obtain ⟨samples, hsampled, hwindow, -, hrow⟩ :=
    summary_in_order hrnd acceptingEnv twoSlots () () none twoFilled s.metrics.ttf httf
  have hring : s.metrics.ttf.buf.buf = [5, 9] := by decide +kernel
  have hsmall : ∀ x ∈ samples.rtake 1024, |x| ≤ 2 ^ 52 := by
    intro x hx
    have hmem : x ∈ ([5, 9] : List ℤ) := hring ▸ hwindow.mem_iff.2 hx
    simp only [List.mem_cons, List.not_mem_nil, or_false] at hmem
    rcases hmem with rfl | rfl <;> norm_num
  exact ⟨samples, hsampled, hrow hsmall, by decide +kernel⟩

end Oms
