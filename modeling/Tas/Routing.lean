import Tas.FlowState
import Tas.Lib.Outcome

/-! The routing table of the slow path, `routing.c`. -/
namespace Tas

open Outcome Relation

/-- `struct routing_table_entry`. -/
structure RoutingTableEntry where
  destIp : U32
  destMask : U32
  nextHop : U32
deriving DecidableEq

/-- `struct config_route`. -/
structure ConfigRoute where
  ip : U32
  ipPrefix : U8
  nextHopIp : U32

/-- The processor shifts by the count modulo 64. -/
def prefixLenMask (len : U8) : U32 :=
  (~~~ (((1 : U64) <<< ((32 - (len.toNat : ℤ)) % 64).toNat) - 1)).truncate 32

/-- The entry of a configured route, unless its mask removes bits. -/
def routeEntry (r : ConfigRoute) : Option RoutingTableEntry :=
  if prefixLenMask r.ipPrefix &&& r.ip ≠ r.ip then none
  else some ⟨r.ip, prefixLenMask r.ipPrefix, r.nextHopIp⟩

/-- The table: first the network of the own address, then the routes as they were given. -/
def routingInit (ip : U32) (ipPrefix : U8) (routes : List ConfigRoute) :
    Option (List RoutingTableEntry) := do
  let entries ← routes.mapM routeEntry
  some (⟨ip &&& prefixLenMask ipPrefix, prefixLenMask ipPrefix, 0⟩ :: entries)

/-- The first route that matches. -/
def resolve (table : List RoutingTableEntry) (ip : U32) : Option RoutingTableEntry :=
  table.find? fun rte => rte.destIp = ip &&& rte.destMask

/-- `routing_resolve`: the address that `arp_request` is called for, or nothing if routing fails. -/
def routingResolve (table : List RoutingTableEntry) : ℕ → U32 → Except Fault (Option U32)
  | 0, _ => .error .unfinished
  | fuel + 1, ip =>
    match resolve table ip with
    | none => .ok none
    | some rte => if rte.nextHop = 0 then .ok (some ip) else routingResolve table fuel rte.nextHop

/-- Routing takes the next hop of the first route that matches. -/
def Hop (table : List RoutingTableEntry) (ip ip' : U32) : Prop :=
  ∃ rte, resolve table ip = some rte ∧ rte.nextHop ≠ 0 ∧ ip' = rte.nextHop

/-- Routing ends, and requests an address on the way. -/
def Routed (table : List RoutingTableEntry) (ip : U32) : Prop :=
  ∃ fuel r, routingResolve table fuel ip = .ok r ∧ ∀ ip' ∈ r, ReflTransGen (Hop table) ip ip'

/-- No next hops lead in a circle: where the route for a next hop has a next hop again, its rank is
lower. -/
def Ranked (table : List RoutingTableEntry) : Prop :=
  ∃ rank : RoutingTableEntry → ℕ, ∀ rte ∈ table, ∀ rte', resolve table rte.nextHop = some rte' →
    rte.nextHop ≠ 0 → rte'.nextHop ≠ 0 → rank rte' < rank rte

variable {table : List RoutingTableEntry} {ip : U32} {rte : RoutingTableEntry} {fuel : ℕ}

theorem routingResolve_hop (hrte : resolve table ip = some rte) (hnext : rte.nextHop ≠ 0) :
    routingResolve table (fuel + 1) ip = routingResolve table fuel rte.nextHop := by
  simp only [routingResolve, hrte, if_neg hnext]

/-- What routing requests lies on the way. -/
theorem reaches_of_routingResolve {ip' : U32} (h : routingResolve table fuel ip = .ok (some ip')) :
    ReflTransGen (Hop table) ip ip' := by
  induction fuel generalizing ip with
  | zero => cases h
  | succ fuel ih =>
    cases hrte : resolve table ip with
    | none => simp [routingResolve, hrte] at h
    | some rte =>
      by_cases hnext : rte.nextHop = 0
      · simp [routingResolve, hrte, hnext] at h
        rw [h]
      · rw [routingResolve_hop hrte hnext] at h
        exact .head ⟨rte, hrte, hnext, rfl⟩ (ih h)

theorem routed_of_ok {r : Option U32} (h : routingResolve table fuel ip = .ok r) :
    Routed table ip := by
  refine ⟨fuel, r, h, ?_⟩
  rintro ip' rfl
  exact reaches_of_routingResolve h

/-- No route matches, or one without a next hop. -/
theorem routed_last (h : ∀ rte, resolve table ip = some rte → rte.nextHop = 0) :
    Routed table ip := by
  cases hrte : resolve table ip with
  | none => exact routed_of_ok (show routingResolve table 1 ip = .ok none by
      simp [routingResolve, hrte])
  | some rte => exact routed_of_ok (show routingResolve table 1 ip = .ok (some ip) by
      simp [routingResolve, hrte, h])

theorem Routed.of_hop (hrte : resolve table ip = some rte) (hnext : rte.nextHop ≠ 0)
    (h : Routed table rte.nextHop) : Routed table ip := by
  obtain ⟨fuel, r, hr, -⟩ := h
  exact routed_of_ok ((routingResolve_hop hrte hnext).trans hr)

theorem Ranked.routed (h : Ranked table) (ip : U32) : Routed table ip := by
  obtain ⟨rank, hrank⟩ := h
  -- the rank of the first route bounds the hops
  have hroute : ∀ n ip, (∀ rte, resolve table ip = some rte → rte.nextHop ≠ 0 → rank rte < n) →
      Routed table ip := by
    intro n
    induction n with
    | zero => exact fun ip hlt => routed_last fun rte hrte => by_contra fun hnext =>
        Nat.not_lt_zero _ (hlt rte hrte hnext)
    | succ n ih =>
      intro ip hlt
      cases hrte : resolve table ip with
      | none => exact routed_last (by simp [hrte])
      | some rte =>
        by_cases hnext : rte.nextHop = 0
        · exact routed_last (by simp [hrte, hnext])
        · refine .of_hop hrte hnext (ih _ fun rte' hrte' hnext' => ?_)
          have hless := hrank rte (List.mem_of_find?_eq_some hrte) rte' hrte' hnext hnext'
          have hle := hlt rte hrte hnext
          omega
  cases hrte : resolve table ip with
  | none => exact routed_last (by simp [hrte])
  | some rte => exact hroute (rank rte + 1) ip (by simp [hrte])

/-- If every address is routed, the iterations from a next hop on rank the routes. -/
theorem ranked_of_routed (h : ∀ ip, Routed table ip) : Ranked table := by
  have hends : ∀ ip, ∃ fuel, (routingResolve table fuel ip).isOk = true := by
    intro ip
    obtain ⟨fuel, r, hr, -⟩ := h ip
    exact ⟨fuel, by rw [hr]; rfl⟩
  refine ⟨fun rte => Nat.find (hends rte.nextHop), fun rte _ rte' hrte' _ hnext' => ?_⟩
  have hok := Nat.find_spec (hends rte.nextHop)
  change Nat.find (hends rte'.nextHop) < Nat.find (hends rte.nextHop)
  cases hfuel : Nat.find (hends rte.nextHop) with
  | zero =>
    rw [hfuel] at hok
    cases hok
  | succ fuel =>
    rw [hfuel, routingResolve_hop hrte' hnext'] at hok
    exact Nat.lt_succ_of_le (Nat.find_min' _ hok)

theorem routing_ends_iff_ranked (table : List RoutingTableEntry) :
    (∀ ip, Routed table ip) ↔ Ranked table :=
  ⟨ranked_of_routed, Ranked.routed⟩

/-- The network 10.0.0.0/24, and a default route over 192.168.1.1. -/
def gatewayElsewhere : List RoutingTableEntry :=
  [⟨0x0a000000, 0xffffff00, 0⟩, ⟨0, 0, 0xc0a80101⟩]

theorem gateway_routed_to_itself :
    routingInit 0x0a000001 24 [⟨0, 0, 0xc0a80101⟩] = some gatewayElsewhere ∧
      ¬ Routed gatewayElsewhere 0x08080808 := by
  have hgateway : ∀ ip, resolve gatewayElsewhere ip = some ⟨0, 0, 0xc0a80101⟩ →
      ∀ fuel, routingResolve gatewayElsewhere fuel ip = .error .unfinished := by
    intro ip hip fuel
    induction fuel generalizing ip with
    | zero => rfl
    | succ fuel ih =>
      rw [routingResolve_hop hip (by decide)]
      exact ih _ (by decide)
  refine ⟨by decide, ?_⟩
  rintro ⟨fuel, r, hr, -⟩
  rw [hgateway 0x08080808 (by decide) fuel] at hr
  cases hr

end Tas
