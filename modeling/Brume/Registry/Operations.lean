import Brume.Registry.Invariant

/-!
# Sequences of registry operations

The registry under any sequence of its operations, with a connection id used
for one insert at most. The representation invariant holds in every state, and
a bound endpoint keeps its key.
-/

namespace Brume.Server
open Lib

/-- An operation on the registry, or the end of an association. -/
inductive Op where
  | insert (id : ℕ) (clientIp : IpAddr) (requestedPort : UInt16)
  | find (source : SocketAddr)
  | remove (id : ℕ)
  | storeDead (id : ℕ)
  deriving DecidableEq

inductive Reply where
  | inserted (accepted : Bool)
  | found (association : Option Arc)
  | done
  deriving DecidableEq

/-- An insert comes with the association that `associate` has just allocated. -/
def World.step : Machine World Op Reply := fun w op =>
  match op with
  | .insert id clientIp requestedPort =>
    let (accepted, w) := (w.alloc id (.new clientIp requestedPort)).insert id id
    (.inserted accepted, w)
  | .find source =>
    let (association, w) := w.find source
    (.found association, w)
  | .remove id => (.done, w.remove id)
  | .storeDead id => (.done, w.storeDead id)

def insertedIds (ops : List Op) : List ℕ :=
  ops.filterMap fun op =>
    match op with
    | .insert id _ _ => some id
    | _ => none

@[simp] theorem insertedIds_nil : insertedIds [] = [] := rfl
@[simp] theorem insertedIds_insert (id : ℕ) (ip : IpAddr) (port : UInt16) (ops : List Op) :
    insertedIds (.insert id ip port :: ops) = id :: insertedIds ops := rfl
@[simp] theorem insertedIds_find (source : SocketAddr) (ops : List Op) :
    insertedIds (.find source :: ops) = insertedIds ops := rfl
@[simp] theorem insertedIds_remove (id : ℕ) (ops : List Op) :
    insertedIds (.remove id :: ops) = insertedIds ops := rfl
@[simp] theorem insertedIds_storeDead (id : ℕ) (ops : List Op) :
    insertedIds (.storeDead id :: ops) = insertedIds ops := rfl

theorem insertedIds_append (ops ops' : List Op) :
    insertedIds (ops ++ ops') = insertedIds ops ++ insertedIds ops' := List.filterMap_append

/-- The registry is well formed and the inserts to come use fresh ids. -/
structure Ready (ops : List Op) (w : World) : Prop where
  wellFormed : w.WellFormed
  nodup : (insertedIds ops).Nodup
  fresh : ∀ id ∈ insertedIds ops, w.registry.entries.lookup id = none
  unbound : ∀ id ∈ insertedIds ops, (w.heap id).endpoint = none

namespace Ready
variable {w : World} {ops : List Op}

theorem initial (h : (insertedIds ops).Nodup) : Ready ops World.initial :=
  ⟨World.wellFormed_initial, h, fun _ _ => rfl, fun _ _ => rfl⟩

/-- The insert of a fresh id meets its own association, not yet registered. -/
theorem alloc {id : ℕ} {ip : IpAddr} {port : UInt16} (h : Ready (.insert id ip port :: ops) w) :
    (w.alloc id (.new ip port)).WellFormed ∧
      (w.alloc id (.new ip port)).registry.entries.lookup id = none ∧
      (w.alloc id (.new ip port)).heap id = .new ip port := by
  have hid := h.fresh id (by simp)
  refine ⟨h.wellFormed.alloc ?_ (Association.endpointOk_new ip port), hid, ?_⟩
  · simp [World.Registered, hid]
  · simp only [World.alloc, Heap.set_apply, ↓reduceIte]

theorem insert_cases {id : ℕ} {ip : IpAddr} {port : UInt16} (h : Ready (.insert id ip port :: ops) w) :
    ((w.alloc id (.new ip port)).insert id id).1 = true ∧
        ((w.alloc id (.new ip port)).insert id id).2.registry.entries = w.registry.entries.insert id id ∨
      (w.alloc id (.new ip port)).insert id id = (false, w.alloc id (.new ip port)) := by
  obtain ⟨-, -, hheap⟩ := h.alloc
  rcases World.WellFormed.insert_cases (by rw [hheap]; rfl) with hi | ⟨-, -, hi⟩ | ⟨k, -, -, hi⟩
  · exact .inr hi
  · exact .inl ⟨by rw [hi], by rw [hi]; rfl⟩
  · exact .inl ⟨by rw [hi], by rw [hi]; rfl⟩

/-- Only its own insert registers an id. -/
theorem entries_step {op : Op} (h : Ready (op :: ops) w) {id : ℕ} (hid : id ∉ insertedIds [op])
    (hnone : w.registry.entries.lookup id = none) :
    (World.step w op).2.registry.entries.lookup id = none := by
  cases op with
  | insert id' ip port =>
    have hne : id ≠ id' := by simpa using hid
    simp only [World.step]
    rcases h.insert_cases with ⟨-, hi⟩ | hi
    · rw [hi, Dict.lookup_insert_eq, if_neg hne]
      exact hnone
    · rw [hi]
      exact hnone
  | find source =>
    simp only [World.step]
    rcases h.wellFormed.find_cases source with ⟨x, -, -, -, hf⟩ | ⟨x, -, -, -, -, -, hf⟩ | ⟨-, -, hf⟩ <;>
      rw [hf] <;> exact hnone
  | remove id' =>
    simp only [World.step]
    rcases h.wellFormed.remove_cases id' with ⟨-, hr⟩ | ⟨-, k, -, -, hr⟩ | ⟨-, -, -, hr⟩ <;> rw [hr]
    · exact hnone
    · simp only [Dict.lookup_erase_eq, hnone, ite_self]
    · simp only [Dict.lookup_erase_eq, hnone, ite_self]
  | storeDead id' => exact hnone

/-- Only a registered association gets an endpoint. -/
theorem endpoint_none_step {op : Op} (h : Ready (op :: ops) w) {id : ℕ}
    (hnone : w.registry.entries.lookup id = none) (he : (w.heap id).endpoint = none) :
    ((World.step w op).2.heap id).endpoint = none := by
  have hne : ∀ x, w.Registered x → id ≠ x := by
    rintro x hx rfl
    rw [World.Registered, hnone] at hx
    cases hx
  cases op with
  | insert id' ip port =>
    have halloc : ((w.alloc id' (.new ip port)).heap id).endpoint = none := by
      simp only [World.alloc, Heap.set_apply]
      split
      · rfl
      · exact he
    obtain ⟨-, -, hheap⟩ := h.alloc
    simp only [World.step]
    rcases World.WellFormed.insert_cases (by rw [hheap]; rfl) with hi | ⟨-, -, hi⟩ | ⟨k, -, -, hi⟩ <;>
      rw [hi] <;> exact halloc
  | find source =>
    simp only [World.step]
    rcases h.wellFormed.find_cases source with ⟨x, hx, -, -, hf⟩ | ⟨x, hx, -, -, -, -, hf⟩ | ⟨-, -, hf⟩ <;>
      rw [hf]
    · simpa [hne x hx] using he
    · simpa [hne x hx] using he
    · exact he
  | remove id' =>
    simp only [World.step]
    rcases h.wellFormed.remove_cases id' with ⟨-, hr⟩ | ⟨-, k, -, -, hr⟩ | ⟨-, -, -, hr⟩ <;> rw [hr] <;>
      exact he
  | storeDead id' =>
    simp only [World.step, World.storeDead, Heap.set_apply]
    split
    · rename_i hx
      subst hx
      exact he
    · exact he

theorem step {op : Op} (h : Ready (op :: ops) w) : Ready ops (World.step w op).2 := by
  have hids : insertedIds (op :: ops) = insertedIds [op] ++ insertedIds ops := insertedIds_append [op] ops
  have hmem : ∀ id ∈ insertedIds ops, id ∈ insertedIds (op :: ops) := fun id hid => by
    rw [hids]
    exact List.mem_append_right _ hid
  refine ⟨?_, ?_, fun id hid => ?_, fun id hid =>
    h.endpoint_none_step (h.fresh id (hmem id hid)) (h.unbound id (hmem id hid))⟩
  · cases op with
    | insert id ip port =>
      obtain ⟨hwf, hnone, hheap⟩ := h.alloc
      exact hwf.insert hnone (by rw [hheap]; rfl)
    | find source => exact h.wellFormed.find source
    | remove id => exact h.wellFormed.remove id
    | storeDead id => exact h.wellFormed.storeDead id
  · have hnd := h.nodup
    rw [hids] at hnd
    exact (List.nodup_append.mp hnd).2.1
  · have hnd := h.nodup
    rw [hids] at hnd
    refine h.entries_step (fun hop => ?_) (h.fresh id (hmem id hid))
    exact (List.nodup_append.mp hnd).2.2 id hop id hid rfl

/-- Every state of a run with fresh ids is ready for the rest of the run. -/
theorem run {pre post : List Op} (h : Ready (pre ++ post) w) : Ready post (World.step.run w pre).2 :=
  Machine.run_invariant World.step Ready (fun _ _ _ h => h.step) h

end Ready

/-! ### The invariant, index by index -/

/-- The association is in `pending` under its address while its port is unknown,
in `endpoints` under its address and port afterwards, and nowhere else. -/
structure IndexedOnce (w : World) (id : ℕ) : Prop where
  pending : ∀ ip, w.registry.pending.lookup ip = some id ↔
    ((w.heap id).requestedPort = 0 ∧ (w.heap id).endpoint = none) ∧ ip = normalize (w.heap id).clientIp
  endpoints : ∀ k, w.registry.endpoints.lookup k = some id ↔
    ∃ port, (w.heap id).port? = some port ∧ k = SocketAddr.new (normalize (w.heap id).clientIp) port

theorem World.WellFormed.indexedOnce {w : World} (hw : w.WellFormed) {id : ℕ} (hid : w.Registered id) :
    IndexedOnce w id where
  pending ip := by
    rw [hw.pending, Association.indexKey_eq_none]
    exact ⟨fun h => ⟨h.2.1, h.2.2.symm⟩, fun h => ⟨hid, h.1, h.2.symm⟩⟩
  endpoints k := by
    rw [hw.endpoints, Association.indexKey_eq (hw.endpointOk id), Option.map_eq_some_iff]
    constructor
    · rintro ⟨-, port, hp, hk⟩
      exact ⟨port, hp, hk.symm⟩
    · rintro ⟨port, hp, hk⟩
      exact ⟨hid, port, hp, hk.symm⟩

/-- A bound endpoint keeps its key in a step that does not allocate the association anew. -/
theorem Ready.endpoint_step {w : World} {op : Op} {ops : List Op} (h : Ready (op :: ops) w) {id : ℕ}
    (hid : id ∉ insertedIds [op]) {a : SocketAddr} (ha : (w.heap id).endpoint = some a) :
    ∃ b, ((World.step w op).2.heap id).endpoint = some b ∧ endpointKey b = endpointKey a := by
  have hkey : (w.heap id).indexKey = some (endpointKey a) := by
    obtain ⟨hip, hport⟩ := h.wellFormed.endpointOk id a ha
    unfold Association.indexKey
    split
    · rename_i hp
      rw [← hip, ← hport hp, endpointKey]
    · rw [ha]
      rfl
  cases op with
  | insert id' ip port =>
    have hne : id ≠ id' := by simpa using hid
    have hheap : (World.step w (.insert id' ip port)).2.heap id = w.heap id := by
      obtain ⟨-, -, hnew⟩ := h.alloc
      simp only [World.step]
      rcases World.WellFormed.insert_cases (by rw [hnew]; rfl) with hi | ⟨-, -, hi⟩ | ⟨k, -, -, hi⟩ <;>
        rw [hi] <;> simp only [World.alloc, Heap.set_apply, if_neg hne]
    exact ⟨a, by rw [hheap]; exact ha, rfl⟩
  | find source =>
    simp only [World.step]
    rcases h.wellFormed.find_cases source with ⟨x, -, -, hk, hf⟩ | ⟨x, -, -, hk, -, -, hf⟩ | ⟨-, -, hf⟩ <;>
      rw [hf]
    · by_cases hx : id = x
      · subst hx
        rw [hkey] at hk
        exact ⟨source, by simp [Association.bind], (Option.some_inj.mp hk).symm⟩
      · exact ⟨a, by simpa [hx] using ha, rfl⟩
    · by_cases hx : id = x
      · subst hx
        rw [hkey] at hk
        cases hk
      · exact ⟨a, by simpa [hx] using ha, rfl⟩
    · exact ⟨a, ha, rfl⟩
  | remove id' =>
    have hheap : (World.step w (.remove id')).2.heap = w.heap := h.wellFormed.heap_remove id'
    exact ⟨a, by rw [hheap]; exact ha, rfl⟩
  | storeDead id' =>
    refine ⟨a, ?_, rfl⟩
    simp only [World.step, World.storeDead, Heap.set_apply]
    split
    · rename_i hx
      subst hx
      exact ha
    · exact ha

theorem Ready.endpoint_run {w : World} {pre post : List Op} (h : Ready (pre ++ post) w) {id : ℕ}
    (hid : id ∉ insertedIds pre) {a : SocketAddr} (ha : (w.heap id).endpoint = some a) :
    ∃ b, ((World.step.run w pre).2.heap id).endpoint = some b ∧ endpointKey b = endpointKey a := by
  induction pre generalizing w a with
  | nil => exact ⟨a, ha, rfl⟩
  | cons op ops ih =>
    rw [show op :: ops = [op] ++ ops from rfl, insertedIds_append] at hid
    obtain ⟨b, hb, hkb⟩ := h.endpoint_step (fun hm => hid (List.mem_append_left _ hm)) ha
    obtain ⟨c, hc, hkc⟩ := ih h.step (fun hm => hid (List.mem_append_right _ hm)) hb
    exact ⟨c, hc, hkc.trans hkb⟩

/-- The registry in every reachable state: each entry is indexed once, the
indexes hold entries only, no two entries share an endpoint, an endpoint lies
inside what its control connection asked for and keeps its key for ever. -/
theorem registry_invariant (pre post : List Op) (hfresh : (insertedIds (pre ++ post)).Nodup) :
    let w := (World.step.run World.initial pre).2
    (∀ id ∈ w.registry.entries, IndexedOnce w id) ∧
      (∀ k id, w.registry.endpoints.lookup k = some id → id ∈ w.registry.entries) ∧
      (∀ ip id, w.registry.pending.lookup ip = some id → id ∈ w.registry.entries) ∧
      Dict.size w.registry.endpoints + Dict.size w.registry.pending = Dict.size w.registry.entries ∧
      (∀ id id' port, id ∈ w.registry.entries → id' ∈ w.registry.entries →
        (w.heap id).port? = some port → (w.heap id').port? = some port →
        normalize (w.heap id).clientIp = normalize (w.heap id').clientIp → id = id') ∧
      ∀ id a, (w.heap id).endpoint = some a →
        (endpointKey a).ip = normalize (w.heap id).clientIp ∧
        ((w.heap id).requestedPort ≠ 0 → (endpointKey a).port = (w.heap id).requestedPort) ∧
        ∃ b, ((World.step.run w post).2.heap id).endpoint = some b ∧ endpointKey b = endpointKey a := by
  intro w
  have hready : Ready post w := (Ready.initial hfresh).run
  have hw := hready.wellFormed
  have hreg : ∀ id, id ∈ w.registry.entries → w.Registered id := by
    intro id hid
    obtain ⟨arc, harc⟩ := Dict.mem_iff.mp hid
    rw [World.Registered, harc, hw.arc id arc harc]
  refine ⟨fun id hid => hw.indexedOnce (hreg id hid), fun k id hk => ?_, fun ip id hp => ?_, hw.size,
    fun id id' port hid hid' hp hp' hip => ?_, fun id a ha => ?_⟩
  · exact Dict.mem_iff.mpr ⟨id, ((hw.endpoints k id).mp hk).1⟩
  · exact Dict.mem_iff.mpr ⟨id, ((hw.pending ip id).mp hp).1⟩
  · have h₁ := ((hw.indexedOnce (hreg id hid)).endpoints _).mpr ⟨port, hp, rfl⟩
    have h₂ := ((hw.indexedOnce (hreg id' hid')).endpoints _).mpr ⟨port, hp', rfl⟩
    rw [hip, h₂] at h₁
    exact (Option.some_inj.mp h₁).symm
  · obtain ⟨hip, hport⟩ := hw.endpointOk id a ha
    refine ⟨by rw [endpointKey, SocketAddr.ip_new, hip], fun hp => ?_, ?_⟩
    · rw [endpointKey, SocketAddr.port_new, hport hp]
    · have hready' : Ready (post ++ []) w := by rwa [List.append_nil]
      refine hready'.endpoint_run (fun hid => ?_) ha
      rw [hready.unbound id hid] at ha
      cases ha

/-- A pending association, bound by the datagram of an IPv4-mapped source. -/
theorem registry_invariant_bound :
    ((World.step.run World.initial
        [.insert 1 (.v4 ⟨#v[192, 0, 2, 1]⟩) 0,
          .find (.v6 (Ipv4Addr.toIpv6Mapped ⟨#v[192, 0, 2, 1]⟩) 4000 0 0)]).2.heap 1).endpoint =
      some (.v6 (Ipv4Addr.toIpv6Mapped ⟨#v[192, 0, 2, 1]⟩) 4000 0 0) ∧
    ∃ b, ((World.step.run (World.step.run World.initial
        [.insert 1 (.v4 ⟨#v[192, 0, 2, 1]⟩) 0,
          .find (.v6 (Ipv4Addr.toIpv6Mapped ⟨#v[192, 0, 2, 1]⟩) 4000 0 0)]).2
        [.find (.v4 ⟨#v[192, 0, 2, 1]⟩ 4000), .storeDead 1]).2.heap 1).endpoint = some b ∧
      endpointKey b = endpointKey (.v6 (Ipv4Addr.toIpv6Mapped ⟨#v[192, 0, 2, 1]⟩) 4000 0 0) :=
  ⟨by decide, ((registry_invariant
      [.insert 1 (.v4 ⟨#v[192, 0, 2, 1]⟩) 0,
        .find (.v6 (Ipv4Addr.toIpv6Mapped ⟨#v[192, 0, 2, 1]⟩) 4000 0 0)]
      [.find (.v4 ⟨#v[192, 0, 2, 1]⟩ 4000), .storeDead 1] (by decide)).2.2.2.2.2 1 _
    (by decide)).2.2⟩

end Brume.Server
