import DasEdge.Lora.LoraStd
import DasEdge.Wireless.NodeRouting
import DasEdge.Zigbee.ZgbNodes

/-!
# What runs of the two registries keep

The results about registries for `lora_std.c` and `zgb_std.c`. Addresses are stored as announced for
the two Modbus types only: for another type the array keeps the zeros with which it is allocated.
-/

namespace DasEdge.Wireless

open DasEdge.Library DasEdge.Lora DasEdge.Zigbee

variable {ν δ ι : Type} [DecidableEq ν]

/-- A run from the empty registry ends, the registry holds entries whose sub-nodes are made of the
last announcements, and a further call keeps that and changes no node that it is not about. -/
def RegistryKeeps (step : NodeRegistry ν δ → ι → Option (Option ℕ × NodeRegistry ν δ))
    (call : ι → NodeOp ν δ) (ops : List ι) : Prop :=
  ∃ outs reg entries, runBlocking step emptyNodeRegistry ops = some (outs, reg) ∧
    Registered reg entries ∧
    HoldsLast (ops.map call) entries ∧
    ∀ op, NodeFresh reg (call op) → ∃ out reg' entries', step reg op = some (out, reg') ∧
      Registered reg' entries' ∧
      HoldsLast ((ops ++ [op]).map call) entries' ∧ NodeStepOk entries entries' (call op)

/-- A run from the empty registry ends, and when the radio takes each network id, routing to each
pair in the registry that it leaves is right if and only if a condition on the entries holds. -/
def RunRoutes (step : NodeRegistry ν δ → ι → Option (Option ℕ × NodeRegistry ν δ))
    (setDst : NodeRegistry ν δ → (ν → Bool) → ℕ → ℤ → Option (Option ν × Bool)) (ops : List ι)
    (C : List (NodeEntry ν δ) → ℕ → ℤ → Prop) : Prop :=
  ∃ outs reg entries, runBlocking step emptyNodeRegistry ops = some (outs, reg) ∧
    Registered reg entries ∧
    ∀ setDstAddr : ν → Bool, (∀ netid, setDstAddr netid = true) → ∀ type addr,
      ∃ selected ret, setDst reg setDstAddr type addr = some (selected, ret) ∧
        (Routes entries type addr selected ret ↔ C entries type addr)

/-- The calls of a run with rounds for all of them. -/
theorem wirelessRun {fuel : ℕ} {step : NodeRegistry ν δ → ι → Option (Option ℕ × NodeRegistry ν δ)}
    {call : ι → NodeOp ν δ}
    (hstep : ∀ reg op, step reg op = nodeStep fuel reg (call op)) {ops : List ι}
    (hfuel : ops.length + 1 < fuel)
    (hfresh : GuardedRun step (fun reg op => NodeFresh reg (call op)) emptyNodeRegistry ops) :
    ∃ outs reg entries, runBlocking step emptyNodeRegistry ops = some (outs, reg) ∧
      Registered reg entries ∧
      HoldsLast (ops.map call) entries ∧ EntriesFit fuel entries := by
  obtain rfl : step = fun reg op => nodeStep fuel reg (call op) := funext fun reg => funext (hstep reg)
  rw [guardedRun_map] at hfresh
  have hempty : Registered (emptyNodeRegistry : NodeRegistry ν δ) [] :=
    registered_nil rfl (fun _ => rfl) fun _ => rfl
  have hnone : EntriesFit (([] : List (NodeOp ν δ)).length + 1) ([] : List (NodeEntry ν δ)) :=
    ⟨Nat.zero_lt_one, fun e he => absurd he List.not_mem_nil⟩
  have hrounds : ([] : List (NodeOp ν δ)).length + (ops.map call).length < fuel := by
    rw [List.length_nil, List.length_map]
    omega
  obtain ⟨outs, reg, entries, hrun, hreg, hholds, hfit⟩ :=
    nodeRun_holds hempty (fun e he => absurd he List.not_mem_nil) hnone hrounds hfresh
  rw [List.nil_append] at hholds hfit
  rw [List.length_map] at hfit
  exact ⟨outs, reg, entries, by rw [runBlocking_map, hrun], hreg, hholds,
    hfit.mono (Nat.le_of_lt hfuel)⟩

/-- Every such run keeps the registry. -/
theorem registryKeeps {fuel : ℕ}
    {step : NodeRegistry ν δ → ι → Option (Option ℕ × NodeRegistry ν δ)} {call : ι → NodeOp ν δ}
    (hstep : ∀ reg op, step reg op = nodeStep fuel reg (call op)) {ops : List ι}
    (hfuel : ops.length + 1 < fuel)
    (hfresh : GuardedRun step (fun reg op => NodeFresh reg (call op)) emptyNodeRegistry ops) :
    RegistryKeeps step call ops := by
  obtain ⟨outs, reg, entries, hrun, hreg, hholds, hfit⟩ := wirelessRun hstep hfuel hfresh
  refine ⟨outs, reg, entries, hrun, hreg, hholds, fun op hop => ?_⟩
  obtain ⟨out, reg', hcall, hreg'⟩ := hreg.step hfit (call op) hop
  refine ⟨out, reg', _, (hstep reg op).trans hcall, hreg', ?_, nodeStepOk entries (call op)⟩
  rw [List.map_append, List.map_singleton]
  exact hholds.step (call op)

/-- In the registry that a run leaves routing to a pair is right, if and only if the first node in
the list that advertises the pair is online when an online node advertises it; so it is for LoRa and
for Zigbee. -/
theorem wireless_routes_iff (fuel : ℕ) :
    (∀ ops : List LoraNodeOp, ops.length + 1 < fuel →
      GuardedRun (loraNodeStep fuel) (fun reg op => NodeFresh reg op.call) emptyNodeRegistry ops →
      RunRoutes (loraNodeStep fuel) (loraSetDstNode fuel) ops FirstIsOnline) ∧
    ∀ ops : List ZgbNodeOp, ops.length + 1 < fuel →
      GuardedRun (zgbNodeStep fuel) (fun reg op => NodeFresh reg op.call) emptyNodeRegistry ops →
      RunRoutes (zgbNodeStep fuel) (zgbSetDstNode fuel) ops FirstIsOnline := by
  constructor
  · intro ops hfuel hfresh
    obtain ⟨outs, reg, entries, hrun, hreg, hholds, hfit⟩ :=
      wirelessRun (loraNodeStep_eq fuel) hfuel hfresh
    exact ⟨outs, reg, entries, hrun, hreg, hreg.routes_iff hholds.counted hfit⟩
  · intro ops hfuel hfresh
    obtain ⟨outs, reg, entries, hrun, hreg, hholds, hfit⟩ :=
      wirelessRun (zgbNodeStep_eq fuel) hfuel hfresh
    exact ⟨outs, reg, entries, hrun, hreg, hreg.routes_iff hholds.counted hfit⟩

/-- Two nodes announce one address each. -/
theorem wireless_routes_iff_two :
    RunRoutes (loraNodeStep 4) (loraSetDstNode 4)
        [.insert ⟨⟨0, 1, fun _ => 5⟩, 1, 7, ⟨0, 0, []⟩⟩ 80 1600000000 1 1,
          .insert ⟨⟨0, 1, fun _ => 6⟩, 1, 8, ⟨0, 0, []⟩⟩ 80 1600000010 2 2] FirstIsOnline ∧
      RunRoutes (zgbNodeStep 4) (zgbSetDstNode 4)
        [.insert ⟨⟨0, 1, fun _ => 5⟩, 1, 7, [], 80⟩ 1600000000 1 1,
          .insert ⟨⟨0, 1, fun _ => 6⟩, 1, 8, [], 80⟩ 1600000010 2 2]
        FirstIsOnline :=
  ⟨(wireless_routes_iff 4).1 _ (by decide) (by decide),
    (wireless_routes_iff 4).2 _ (by decide) (by decide)⟩

/-- A slave is moved from one node to another, and the first one goes offline. The slave is not
reached. -/
theorem wireless_routes_not_moved :
    ¬ ∀ (fuel : ℕ) (ops : List LoraNodeOp), ops.length + 1 < fuel →
      GuardedRun (loraNodeStep fuel) (fun reg op => NodeFresh reg op.call) emptyNodeRegistry ops →
      RunRoutes (loraNodeStep fuel) (loraSetDstNode fuel) ops fun _ _ _ => True := by
  intro hall
  obtain ⟨outs, reg, entries, hrun, hreg, hroutes⟩ := hall 5
    [.insert ⟨⟨0, 1, fun _ => 5⟩, 1, 7, ⟨0, 0, []⟩⟩ 80 1600000000 1 1,
      .insert ⟨⟨0, 1, fun _ => 5⟩, 1, 8, ⟨0, 0, []⟩⟩ 80 1600000030 2 2,
        .checkOnline 1600000040 10] (by decide) (by decide)
  cases hrun
  obtain ⟨selected, ret, hset, hright⟩ := hroutes (fun _ => true) (fun _ => rfl) 0 5
  obtain ⟨e, he, -, hlink⟩ := hreg.entry (p := 2) rfl
  have hsub := hreg.sub he (q := 2) (by rw [hlink]) rfl
  have honline : e.online = true := congrArg Mnode.online hlink
  have hreach : Reachable entries 0 5 := ⟨e, he, honline, _, hsub, rfl, 5, .head _, rfl⟩
  obtain ⟨hret, -⟩ := (hright.mpr trivial).selects hreach
  cases hset
  cases hret

end DasEdge.Wireless
