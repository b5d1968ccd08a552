import Oms.ExecutionAlgo.Listening

/-!
# The calls that reach the venues

* `Env.noted`: the environment in which every order and every cancel that a client gets is
  written down, with the client's answer;
* `registry_noted`: its clients are those of the environment, and nothing else is written down.
-/

namespace Oms

open OrderManager

/-- A call to a venue's client, and its answer. -/
inductive VenueCall
  | place (o : Order) (r : SendResult)
  | cancel (id : OrderIdRaw) (r : SendResult)

/-- The answers to the cancels of an id. -/
def cancelsOf (id : OrderIdRaw) (calls : List VenueCall) : List SendResult :=
  calls.filterMap fun
    | .cancel k r => if k = id then some r else none
    | .place _ _ => none

section CancelsOf

variable {id : OrderIdRaw} {calls calls' : List VenueCall}

theorem cancelsOf_append :
    cancelsOf id (calls ++ calls') = cancelsOf id calls ++ cancelsOf id calls' :=
  List.filterMap_append

theorem cancelsOf_self (r : SendResult) : cancelsOf id [.cancel id r] = [r] := by
  simp [cancelsOf]

/-- Cancels of other ids do not count. -/
theorem cancelsOf_eq_nil (h : ∀ c ∈ calls, ∃ k ≠ id, ∃ r, c = .cancel k r) :
    cancelsOf id calls = [] := by
  refine List.filterMap_eq_nil_iff.2 fun c hc => ?_
  obtain ⟨k, hk, r, rfl⟩ := h c hc
  exact if_neg hk

end CancelsOf

section Recording

variable {W : Type}

/-- A client whose calls are written down. -/
def ExchangeClient.noted (ex : ExchangeClient W) : ExchangeClient (W × List VenueCall) :=
  { ex.beside with
    placeOrder := fun o w =>
      let (r, w') := ex.placeOrder o w.1
      (r, w', w.2 ++ [.place o r])
    cancelOrder := fun id exchId w =>
      let (r, w') := ex.cancelOrder id exchId w.1
      (r, w', w.2 ++ [.cancel id r]) }

/-- The environment in which the calls to all clients are written down. -/
def Env.noted (E : Env W) : Env (W × List VenueCall) :=
  { E.beside with registry := ⟨E.registry.byVenue.map fun ex => ex.map ExchangeClient.noted⟩ }

variable {E : Env W}

theorem get_noted (v : VenueId) :
    E.noted.registry.get v = (E.registry.get v).map ExchangeClient.noted := by
  unfold ExchangeRegistry.get Env.noted
  rw [List.getElem?_map]
  cases E.registry.byVenue[v.toNat]? <;> rfl

/-- The clients of the noted environment note their calls. -/
theorem registry_noted {v : VenueId} {ex : ExchangeClient (W × List VenueCall)}
    (h : E.noted.registry.get v = some ex) :
    ∃ ex₀, E.registry.get v = some ex₀ ∧ ex = ExchangeClient.noted ex₀ := by
  rw [get_noted, Option.map_eq_some_iff] at h
  obtain ⟨ex₀, hget, hex⟩ := h
  exact ⟨ex₀, hget, hex.symm⟩

end Recording

end Oms
