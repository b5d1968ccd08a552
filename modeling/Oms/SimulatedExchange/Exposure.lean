import Oms.OrderManager.Effects
import Oms.SimulatedExchange.Queue

/-!
# What the manager and the venue keep of an order

* `Exposure`: instrument, side, remaining quantity and trade ids of an order that still trades;
  `exposed` is the manager's side of it, `SimulatedExchange.exposure` the venue's;
* `exposure_enter`, `exposure_kill`, `exposure_bookFill_first`, …: what the venue does to its side;
* `Env.withSim_bystander`, `Env.withSim_canceller`: what the manager does to the venue.
-/

namespace Oms

open OrderManager SimulatedExchange

/-- What an order that still trades exposes. -/
structure Exposure where
  instrument : InstrumentId
  side : Side
  remaining : Quantity
  trades : Finset TradeId
  deriving DecidableEq

/-- The exposure of an order of the manager. -/
def exposed : Observation Exposure where
  see := fun o trades => ⟨o.instrument, o.side, o.remaining, trades⟩
  keeps := fun trades h => by rw [h.instrument, h.side, h.remaining]

/-- The exposure of an order at the venue. -/
def Working.exposure (w : Working) : Option Exposure :=
  if w.alive then some ⟨w.instrument, w.side, w.remaining, w.seenTrades⟩ else none

namespace SimulatedExchange

def exposure (x : SimulatedExchange) (id : OrderIdRaw) : Option Exposure :=
  (x.working.lookup id).bind Working.exposure

section Venue

variable {x x' : SimulatedExchange} {id : OrderIdRaw} {w : Working} {ev : SimEvent} {e : Exposure}

theorem exposure_eq_some_iff : x.exposure id = some e ↔
    ∃ w, x.working.lookup id = some w ∧ w.alive = true ∧
      e = ⟨w.instrument, w.side, w.remaining, w.seenTrades⟩ := by
  unfold exposure Working.exposure
  rw [Option.bind_eq_some_iff]
  refine exists_congr fun w => and_congr_right fun _ => ?_
  split_ifs with halive
  · rw [Option.some_inj]
    exact ⟨fun h => ⟨halive, h.symm⟩, fun h => h.2.symm⟩
  · exact ⟨nofun, fun h => absurd h.1 halive⟩

/-- Writing one entry of the table changes the exposures at its id. -/
theorem exposure_insert (x x' : SimulatedExchange) (h : x'.working = x.working.insert id w) :
    x'.exposure = Function.update x.exposure id w.exposure := by
  funext k
  unfold exposure
  rw [h]
  by_cases hk : k = id
  · subst hk
    rw [Function.update_self, Finmap.lookup_insert]
    rfl
  · rw [Function.update_of_ne hk, Finmap.lookup_insert_of_ne _ hk]

theorem exposure_congr (h : x'.working = x.working) : x'.exposure = x.exposure := by
  funext k
  rw [exposure, h, exposure]

theorem exposure_enter (o : Order) (x : SimulatedExchange) : (x.enter o).exposure =
    Function.update x.exposure o.internalId (some ⟨o.instrument, o.side, o.size, ∅⟩) := by
  rw [exposure_insert x (x.enter o) rfl]
  rfl

theorem exposure_kill (id : OrderIdRaw) (x : SimulatedExchange) :
    (x.kill id).exposure = Function.update x.exposure id none := by
  unfold kill
  split
  · rename_i hnone
    rw [eq_comm, Function.update_eq_self_iff, exposure, hnone]
    rfl
  · rw [exposure_insert x _ rfl]
    rfl

/-- A fill of an order that does not trade any more does not count. -/
theorem exposure_bookFill_none (h : x.exposure ev.id = none) :
    (x.bookFill ev).exposure = x.exposure ∧ (x.bookFill ev).positions = x.positions := by
  unfold bookFill
  split
  · exact ⟨rfl, rfl⟩
  · rename_i w hw
    have hdead : w.alive = false := by
      rw [← Bool.not_eq_true]
      intro halive
      rw [exposure, hw] at h
      simp [Working.exposure, halive] at h
    rw [if_neg (by simp [hdead])]
    refine ⟨?_, rfl⟩
    rw [exposure_insert x _ rfl, Function.update_eq_self_iff, h]
    simp [Working.exposure, hdead]

/-- Nor does a trade that was seen before. -/
theorem exposure_bookFill_again (h : x.exposure ev.id = some e) (hseen : ev.trade ∈ e.trades) :
    (x.bookFill ev).exposure = x.exposure ∧ (x.bookFill ev).positions = x.positions := by
  obtain ⟨w, hw, halive, rfl⟩ := exposure_eq_some_iff.1 h
  unfold bookFill
  rw [hw]
  dsimp only
  rw [if_neg fun hnew => hnew.1 hseen]
  refine ⟨?_, rfl⟩
  rw [exposure_insert x _ rfl, Function.update_eq_self_iff, h]
  simp [Working.exposure, halive, Finset.insert_eq_of_mem hseen]

/-- The first sighting of a trade moves the order on, or ends it. -/
theorem exposure_bookFill_first (h : x.exposure ev.id = some e) (hnew : ev.trade ∉ e.trades) :
    (x.bookFill ev).exposure = Function.update x.exposure ev.id
        (if ev.final = true ∨ e.remaining - ev.qty ≤ 0 then none
          else some { e with
            remaining := e.remaining - ev.qty, trades := insert ev.trade e.trades }) ∧
      (x.bookFill ev).positions = x.positions.adjust e.instrument (signedQty e.side ev.qty) := by
  obtain ⟨w, hw, halive, rfl⟩ := exposure_eq_some_iff.1 h
  unfold bookFill
  rw [hw]
  dsimp only
  rw [if_pos ⟨hnew, halive⟩]
  refine ⟨?_, rfl⟩
  rw [exposure_insert x _ rfl]
  congr 1
  unfold Working.exposure
  dsimp only
  split_ifs <;> simp_all

theorem mem_kill {k : OrderIdRaw} : k ∈ (x.kill id).working ↔ k ∈ x.working := by
  unfold kill
  split
  · exact Iff.rfl
  · rename_i w hw
    rw [Finmap.mem_insert]
    exact ⟨fun h => h.elim (fun heq => heq ▸ Finmap.mem_iff.2 ⟨w, hw⟩) fun h => h, Or.inr⟩

theorem mem_bookFill {k : OrderIdRaw} : k ∈ (x.bookFill ev).working ↔ k ∈ x.working := by
  unfold bookFill
  split
  · exact Iff.rfl
  · rename_i w hw
    have hmem : ∀ w', k ∈ x.working.insert ev.id w' ↔ k ∈ x.working := fun w' => by
      rw [Finmap.mem_insert]
      exact ⟨fun h => h.elim (fun heq => heq ▸ Finmap.mem_iff.2 ⟨w, hw⟩) fun h => h, Or.inr⟩
    dsimp only
    split_ifs <;> exact hmem _

@[simp] theorem queue_kill : (x.kill id).queue = x.queue := by
  unfold kill
  split <;> rfl

@[simp] theorem queue_bookFill : (x.bookFill ev).queue = x.queue := by
  unfold bookFill
  split
  · rfl
  · dsimp only
    split_ifs <;> rfl

@[simp] theorem cfg_kill : (x.kill id).cfg = x.cfg := by
  unfold kill
  split <;> rfl

@[simp] theorem cfg_bookFill : (x.bookFill ev).cfg = x.cfg := by
  unfold bookFill
  split
  · rfl
  · dsimp only
    split_ifs <;> rfl

@[simp] theorem seqCounter_kill : (x.kill id).seqCounter = x.seqCounter := by
  unfold kill
  split <;> rfl

@[simp] theorem seqCounter_bookFill : (x.bookFill ev).seqCounter = x.seqCounter := by
  unfold bookFill
  split
  · rfl
  · dsimp only
    split_ifs <;> rfl

@[simp] theorem now_kill : (x.kill id).now = x.now := by
  unfold kill
  split <;> rfl

@[simp] theorem now_bookFill : (x.bookFill ev).now = x.now := by
  unfold bookFill
  split
  · rfl
  · dsimp only
    split_ifs <;> rfl

@[simp] theorem positions_kill : (x.kill id).positions = x.positions := by
  unfold kill
  split <;> rfl

end Venue

/-- The answer to a cancel: no fill and no reject, and of an order of the venue unless it is a
cancel-reject. -/
structure Harmless (x : SimulatedExchange) (ev : SimEvent) : Prop where
  no_fill : ev.type ≠ .Fill
  no_reject : ev.type ≠ .Reject
  known : ev.type ≠ .CancelReject → ev.id ∈ x.working

/-- Only answers to cancels were scheduled. -/
def Spared (x x' : SimulatedExchange) : Prop := Queued x.Harmless x x'

theorem Spared.trans {x x' x'' : SimulatedExchange} (h : Spared x x') (h' : Spared x' x'') :
    Spared x x'' := by
  refine Queued.trans h (h'.mono fun ev hev => ⟨hev.no_fill, hev.no_reject, ?_⟩)
  rw [← h.working]
  exact hev.known

theorem cancelOrder_spared (id : OrderIdRaw) (x : SimulatedExchange) :
    Spared x (x.cancelOrder id).2 := by
  unfold cancelOrder
  split_ifs with hconn halive
  · exact .refl x
  · refine schedule_queued fun n => ⟨nofun, nofun, fun _ => ?_⟩
    obtain ⟨w, hw, -⟩ := (Option.any_eq_true _ _).1 halive
    exact Finmap.mem_iff.2 ⟨w, hw⟩
  · exact schedule_queued fun n => ⟨nofun, nofun, fun h => absurd rfl h⟩

theorem massCancel_spared (inst : InstrumentId) (x : SimulatedExchange) :
    Spared x (x.massCancel inst).2 := by
  have hwalk : ∀ (ids : List OrderIdRaw) (y : SimulatedExchange), Spared x y →
      Spared x (ids.foldl (fun y id =>
        if (x.working.lookup id).any fun w => w.alive && w.instrument = inst then
          y.schedule { dueAt := y.now + y.cfg.ackLatencyNs, type := .CancelAck, id := id }
        else y) y) := by
    intro ids
    induction ids with
    | nil => exact fun y hy => hy
    | cons id ids ih =>
      intro y hy
      rw [List.foldl_cons]
      refine ih _ ?_
      split_ifs with halive
      · refine Queued.trans hy (schedule_queued fun n => ⟨nofun, nofun, fun _ => ?_⟩)
        obtain ⟨w, hw, -⟩ := (Option.any_eq_true _ _).1 halive
        exact Finmap.mem_iff.2 ⟨w, hw⟩
      · exact hy
  unfold massCancel
  split_ifs
  · exact .refl x
  · exact hwalk _ x (.refl x)

end SimulatedExchange

/-! ### What the manager does to the venue -/

section Wiring

variable {B : Type} {E : SimulatedExchange → Env B} {venue : VenueId}

theorem Env.withSim_bystander :
    (Env.withSim E venue).Bystander fun w w' => w'.1 = w.1 where
  refl := fun _ => rfl
  trans := fun h h' => h'.trans h
  log := fun _ _ _ => rfl
  publish := fun _ _ _ => rfl
  select := fun _ _ _ _ => rfl
  onAck := fun _ _ _ => rfl
  onReject := fun _ _ _ => rfl
  onFill := fun _ _ => rfl
  onTimeout := fun _ _ => rfl
  onDisconnect := fun _ _ => rfl
  onReconnect := fun _ _ => rfl

/-- The simulated venue is the only client. -/
theorem registry_withSim {v : VenueId} {ex : ExchangeClient (SimulatedExchange × B)}
    (h : (Env.withSim E venue).registry.get v = some ex) : ex = simClient := by
  have hmem : some ex ∈ List.replicate venue.toNat none ++ [some simClient] :=
    List.mem_of_getElem? (Option.join_eq_some_iff.1 h)
  rcases List.mem_append.1 hmem with hnone | hclient
  · exact absurd (List.eq_of_mem_replicate hnone) nofun
  · exact Option.some_inj.1 (List.mem_singleton.1 hclient)

theorem Env.withSim_canceller :
    (Env.withSim E venue).Canceller fun w w' => Spared w.1 w'.1 where
  refl := fun w => .refl w.1
  trans := Spared.trans
  log := fun _ _ w => .refl w.1
  publish := fun _ _ w => .refl w.1
  select := fun _ _ _ w => .refl w.1
  onAck := fun _ _ w => .refl w.1
  onReject := fun _ _ w => .refl w.1
  onFill := fun _ w => .refl w.1
  onTimeout := fun _ w => .refl w.1
  onDisconnect := fun _ w => .refl w.1
  onReconnect := fun _ w => .refl w.1
  cancelOrder := fun hex id _ w => by
    rw [registry_withSim hex]
    exact cancelOrder_spared id w.1

end Wiring

end Oms
