import Brume.Registry

/-!
# The registry's representation invariant

Every registered association is indexed once, under the key that its own state
determines. The two indexes are described by that key alone, so an operation
keeps the invariant when it moves the index along with the key.
-/

namespace Brume.Server
open Lib

/-! ### One association -/

namespace Association

/-- The endpoint lies inside what the control connection asked for. -/
def EndpointOk (a : Association) : Prop :=
  ∀ e, a.endpoint = some e →
    normalize e.ip = normalize a.clientIp ∧ (a.requestedPort ≠ 0 → e.port = a.requestedPort)

/-- The port under which the association is known: requested or learned. -/
def port? (a : Association) : Option UInt16 :=
  if a.requestedPort ≠ 0 then some a.requestedPort else a.endpoint.map SocketAddr.port

theorem indexKey_eq {a : Association} (h : a.EndpointOk) :
    a.indexKey = a.port?.map (SocketAddr.new (normalize a.clientIp)) := by
  unfold indexKey port?
  split
  · rfl
  · rcases he : a.endpoint with _ | e
    · rfl
    · simp only [Option.map_some, endpointKey, (h e he).1]

theorem indexKey_eq_none {a : Association} :
    a.indexKey = none ↔ a.requestedPort = 0 ∧ a.endpoint = none := by
  unfold indexKey
  split
  · rename_i h
    simp [h]
  · rename_i h
    simp only [Option.map_eq_none_iff, iff_and_self]
    exact fun _ => not_not.mp h

/-- The address of an indexed association is part of its key. -/
theorem ip_of_indexKey {a : Association} (h : a.EndpointOk) {k : SocketAddr} (hk : a.indexKey = some k) :
    k.ip = normalize a.clientIp := by
  rw [indexKey_eq h] at hk
  obtain ⟨p, -, rfl⟩ := Option.map_eq_some_iff.mp hk
  exact SocketAddr.ip_new _ _

/-- A bound association is indexed under the key of its endpoint. -/
theorem indexKey_of_endpoint {a : Association} (h : a.EndpointOk) {e : SocketAddr} (he : a.endpoint = some e) :
    a.indexKey = some (endpointKey e) := by
  obtain ⟨hip, hport⟩ := h e he
  unfold indexKey
  split
  · rename_i hp
    rw [← hip, ← hport hp, endpointKey]
  · rw [he, Option.map_some]

/-- The requested port and the address restrict the sources an association can be bound to. -/
def Matches (a : Association) (source : SocketAddr) : Prop :=
  a.indexKey = some (endpointKey source) ∨
    a.indexKey = none ∧ normalize a.clientIp = normalize source.ip

/-- The association behind a datagram from `source`. -/
def bind (a : Association) (source : SocketAddr) : Association := { a with endpoint := some source }

@[simp] theorem bind_clientIp (a : Association) (s : SocketAddr) : (a.bind s).clientIp = a.clientIp := rfl
@[simp] theorem bind_requestedPort (a : Association) (s : SocketAddr) :
    (a.bind s).requestedPort = a.requestedPort := rfl
@[simp] theorem bind_endpoint (a : Association) (s : SocketAddr) : (a.bind s).endpoint = some s := rfl
@[simp] theorem bind_alive (a : Association) (s : SocketAddr) : (a.bind s).alive = a.alive := rfl

theorem Matches.ip {a : Association} {source : SocketAddr} (h : a.EndpointOk) (hm : a.Matches source) :
    normalize source.ip = normalize a.clientIp := by
  rcases hm with hk | ⟨-, hip⟩
  · have hip := ip_of_indexKey h hk
    rwa [endpointKey, SocketAddr.ip_new] at hip
  · exact hip.symm

theorem Matches.port {a : Association} {source : SocketAddr} (hm : a.Matches source)
    (hp : a.requestedPort ≠ 0) : source.port = a.requestedPort := by
  rcases hm with hk | ⟨hnone, -⟩
  · rw [indexKey, if_pos hp, Option.some_inj, endpointKey, SocketAddr.new_inj] at hk
    exact hk.2.symm
  · exact absurd (indexKey_eq_none.mp hnone).1 hp

/-- An association accepts the sources that match it, and binds the endpoint. -/
theorem accepts_of_matches {a : Association} {source : SocketAddr} (h : a.EndpointOk)
    (hm : a.Matches source) : a.accepts source = (true, a.bind source) := by
  have hip := hm.ip h
  unfold accepts
  rw [if_neg (by
    rintro (hne | ⟨hp, hne⟩)
    · exact hne hip
    · exact hne (hm.port hp).symm)]
  rcases he : a.endpoint with _ | e
  · rfl
  · have hkey : endpointKey e = endpointKey source := by
      obtain ⟨hei, hep⟩ := h e he
      rcases hm with hk | ⟨hnone, -⟩
      · by_cases hp : a.requestedPort ≠ 0
        · refine endpointKey_inj.mpr ⟨hei.trans hip.symm, ?_⟩
          rw [hep hp, Matches.port (.inl hk) hp]
        · rw [indexKey, if_neg hp, he] at hk
          exact Option.some_inj.mp hk
      · rw [(indexKey_eq_none.mp hnone).2] at he
        cases he
    simp only [hkey, ↓reduceIte]
    rfl

theorem EndpointOk.bind {a : Association} {source : SocketAddr} (h : a.EndpointOk)
    (hm : a.Matches source) : (a.bind source).EndpointOk := by
  intro e he
  cases he
  have hip := hm.ip h
  have hport := hm.port
  exact ⟨hip, hport⟩

/-- Behind a datagram the key is that of its source. -/
theorem indexKey_bind {a : Association} {source : SocketAddr} (h : a.EndpointOk) (hm : a.Matches source) :
    (a.bind source).indexKey = some (endpointKey source) := by
  unfold indexKey
  split
  · rename_i hp
    rw [bind_requestedPort] at hp
    rw [bind_clientIp, bind_requestedPort, ← hm.ip h, ← hm.port hp, endpointKey]
  · rfl

theorem endpointOk_new (ip : IpAddr) (port : UInt16) : (new ip port).EndpointOk := by
  intro e he
  cases he

end Association

/-! ### The registry -/

@[simp, grind =] theorem Heap.set_apply (heap : Heap) (arc id : Arc) (a : Association) :
    heap.set arc a id = if id = arc then a else heap id := Function.update_apply heap arc a id

namespace World

/-- The association of connection `id` is in the registry. -/
def Registered (w : World) (id : ℕ) : Prop := w.registry.entries.lookup id = some id

structure WellFormed (w : World) : Prop where
  arc : ∀ id arc, w.registry.entries.lookup id = some arc → arc = id
  endpoints : ∀ k id, w.registry.endpoints.lookup k = some id ↔
    w.Registered id ∧ (w.heap id).indexKey = some k
  pending : ∀ ip id, w.registry.pending.lookup ip = some id ↔
    w.Registered id ∧ (w.heap id).indexKey = none ∧ normalize (w.heap id).clientIp = ip
  endpointOk : ∀ id, (w.heap id).EndpointOk
  size : Dict.size w.registry.endpoints + Dict.size w.registry.pending = Dict.size w.registry.entries

namespace WellFormed
variable {w : World}

theorem lookup_entries (hw : w.WellFormed) {id : ℕ} {o : Option Arc}
    (h : w.registry.entries.lookup id = o) : o = none ∨ o = some id := by
  cases o with
  | none => exact .inl rfl
  | some arc => exact .inr (by rw [hw.arc id arc h])

/-- A change of one association that moves no key. -/
theorem set (hw : w.WellFormed) {id : ℕ} {a : Association}
    (hkeep : w.Registered id → a.clientIp = (w.heap id).clientIp ∧ a.indexKey = (w.heap id).indexKey)
    (hok : a.EndpointOk) : WellFormed { w with heap := w.heap.set id a } where
  arc := hw.arc
  endpoints k id' := by
    rw [hw.endpoints]
    refine and_congr_right fun hreg => ?_
    simp only [Heap.set_apply]
    split
    · rename_i h
      subst h
      rw [(hkeep hreg).2]
    · rfl
  pending ip id' := by
    rw [hw.pending]
    refine and_congr_right fun hreg => ?_
    simp only [Heap.set_apply]
    split
    · rename_i h
      subst h
      rw [(hkeep hreg).1, (hkeep hreg).2]
    · rfl
  endpointOk id' := by
    simp only [Heap.set_apply]
    split
    · exact hok
    · exact hw.endpointOk id'
  size := hw.size

/-- What `find` can do: bind an indexed association, move a pending one to the
endpoints, or give nothing and change nothing. -/
theorem find_cases (hw : w.WellFormed) (source : SocketAddr) :
    (∃ id, w.Registered id ∧ (w.heap id).alive = true ∧
        (w.heap id).indexKey = some (endpointKey source) ∧
        w.find source = (some id, { w with heap := w.heap.set id ((w.heap id).bind source) })) ∨
      (∃ id, w.Registered id ∧ (w.heap id).alive = true ∧ (w.heap id).indexKey = none ∧
        normalize (w.heap id).clientIp = normalize source.ip ∧
        w.registry.endpoints.lookup (endpointKey source) = none ∧
        w.find source = (some id, {
          heap := w.heap.set id ((w.heap id).bind source)
          registry := {
            entries := w.registry.entries
            endpoints := w.registry.endpoints.insert (endpointKey source) id
            pending := w.registry.pending.erase (normalize source.ip) } })) ∨
      ((∀ id, w.Registered id → (w.heap id).alive = true → ¬(w.heap id).indexKey = some (endpointKey source)) ∧
        (∀ id, w.Registered id → (w.heap id).alive = true → (w.heap id).indexKey = none →
          normalize (w.heap id).clientIp = normalize source.ip →
          ∃ other, w.Registered other ∧ (w.heap other).indexKey = some (endpointKey source)) ∧
        w.find source = (none, w)) := by
  rcases he : w.registry.endpoints.lookup (endpointKey source) with _ | id
  · rcases hp : w.registry.pending.lookup (normalize source.ip) with _ | id
    · refine .inr (.inr ⟨fun id hid _ hk => ?_, fun id hid _ hk hip => ?_, by simp only [find, he, hp]⟩)
      · rw [(hw.endpoints _ id).mpr ⟨hid, hk⟩] at he
        cases he
      · rw [(hw.pending _ id).mpr ⟨hid, hk, hip⟩] at hp
        cases hp
    · obtain ⟨hid, hk, hip⟩ := (hw.pending _ id).mp hp
      have hentry : w.registry.entries.lookup id = some id := hid
      by_cases ha : (w.heap id).alive
      · refine .inr (.inl ⟨id, hid, ha, hk, hip, rfl, ?_⟩)
        simp only [find, he, hp, hentry, admits, ha, ↓reduceIte,
          Association.accepts_of_matches (hw.endpointOk id) (.inr ⟨hk, hip⟩)]
      · refine .inr (.inr ⟨fun id' hid' _ hk' => ?_, fun id' hid' ha' hk' hip' => ?_, by simp [find, he, hp, hentry, admits, ha]⟩)
        · rw [(hw.endpoints _ id').mpr ⟨hid', hk'⟩] at he
          cases he
        · rw [(hw.pending _ id').mpr ⟨hid', hk', hip'⟩] at hp
          cases hp
          exact absurd ha' ha
  · obtain ⟨hid, hk⟩ := (hw.endpoints _ id).mp he
    have hentry : w.registry.entries.lookup id = some id := hid
    by_cases ha : (w.heap id).alive
    · refine .inl ⟨id, hid, ha, hk, ?_⟩
      simp only [find, he, hentry, admits, ha, ↓reduceIte,
        Association.accepts_of_matches (hw.endpointOk id) (.inl hk)]
    · refine .inr (.inr ⟨fun id' hid' ha' hk' => ?_, fun id' _ _ _ _ => ⟨id, hid, hk⟩, by simp [find, he, hentry, admits, ha]⟩)
      rw [(hw.endpoints _ id').mpr ⟨hid', hk'⟩] at he
      cases he
      exact ha ha'

/-! ### What each operation preserves -/

/-- An association is allocated while no index knows its address. -/
theorem alloc (hw : w.WellFormed) {id : ℕ} (hid : ¬w.Registered id) {a : Association}
    (ha : a.EndpointOk) : (w.alloc id a).WellFormed :=
  hw.set (fun h => absurd h hid) ha

theorem storeDead (hw : w.WellFormed) (arc : Arc) : (w.storeDead arc).WellFormed :=
  hw.set (fun _ => ⟨rfl, rfl⟩) (hw.endpointOk arc)

theorem cancelStopped (hw : w.WellFormed) (arc : Arc) : (w.cancelStopped arc).WellFormed :=
  hw.set (fun _ => ⟨rfl, rfl⟩) (hw.endpointOk arc)

/-- A refused insert changes nothing; otherwise the fresh association gets its
entry and one index entry. -/
theorem insert_cases {id : ℕ} (hnew : (w.heap id).endpoint = none) :
    w.insert id id = (false, w) ∨
      ((w.heap id).indexKey = none ∧
        w.registry.pending.lookup (normalize (w.heap id).clientIp) = none ∧
        w.insert id id = (true, { w with registry := { w.registry with
          pending := w.registry.pending.insert (normalize (w.heap id).clientIp) id
          entries := w.registry.entries.insert id id } })) ∨
      ∃ k, (w.heap id).indexKey = some k ∧ w.registry.endpoints.lookup k = none ∧
        w.insert id id = (true, { w with registry := { w.registry with
          endpoints := w.registry.endpoints.insert k id
          entries := w.registry.entries.insert id id } }) := by
  by_cases hp : (w.heap id).requestedPort = 0
  · rcases hl : w.registry.pending.lookup (normalize (w.heap id).clientIp) with _ | other
    · refine .inr (.inl ⟨Association.indexKey_eq_none.mpr ⟨hp, hnew⟩, rfl, ?_⟩)
      simp [World.insert, hp, hl]
    · exact .inl (by simp [World.insert, hp, hl])
  · have hk : (w.heap id).indexKey =
        some (SocketAddr.new (normalize (w.heap id).clientIp) (w.heap id).requestedPort) := if_pos hp
    rcases hl : w.registry.endpoints.lookup
        (SocketAddr.new (normalize (w.heap id).clientIp) (w.heap id).requestedPort) with _ | other
    · refine .inr (.inr ⟨_, hk, hl, ?_⟩)
      simp [World.insert, hp, hl]
    · exact .inl (by simp [World.insert, hp, hl])

theorem insert (hw : w.WellFormed) {id : ℕ} (hid : w.registry.entries.lookup id = none)
    (hnew : (w.heap id).endpoint = none) : (w.insert id id).2.WellFormed := by
  have hreg : ∀ x, (w.registry.entries.insert id id).lookup x = some x ↔ x = id ∨ w.Registered x := by
    intro x
    rw [Dict.lookup_insert_eq]
    split
    · rename_i h
      simp [h]
    · rename_i h
      simp [h, Registered]
  have harc : ∀ x arc, (w.registry.entries.insert id id).lookup x = some arc → arc = x := by
    intro x arc hx
    rw [Dict.lookup_insert_eq] at hx
    split at hx
    · rename_i h
      cases hx
      exact h.symm
    · exact hw.arc x arc hx
  rcases insert_cases hnew with h | ⟨hk, hl, h⟩ | ⟨k, hk, hl, h⟩ <;> rw [h]
  · exact hw
  · refine ⟨harc, fun k x => ?_, fun ip x => ?_, hw.endpointOk, ?_⟩
    · have he := hw.endpoints k x
      simp only [Registered] at he hreg ⊢
      grind
    · have hp := hw.pending ip x
      simp only [Registered] at hp hreg ⊢
      grind
    · have hs := hw.size
      simp only [Dict.size_insert_of_none hl, Dict.size_insert_of_none hid]
      omega
  · refine ⟨harc, fun k x => ?_, fun ip x => ?_, hw.endpointOk, ?_⟩
    · have he := hw.endpoints k x
      simp only [Registered] at he hreg ⊢
      grind
    · have hp := hw.pending ip x
      simp only [Registered] at hp hreg ⊢
      grind
    · have hs := hw.size
      simp only [Dict.size_insert_of_none hl, Dict.size_insert_of_none hid]
      omega

theorem find (hw : w.WellFormed) (source : SocketAddr) : (w.find source).2.WellFormed := by
  rcases hw.find_cases source with ⟨id, hid, -, hk, h⟩ | ⟨id, hid, -, hk, hip, hl, h⟩ | ⟨-, -, h⟩ <;> rw [h]
  · have hm : (w.heap id).Matches source := .inl hk
    have hkey := Association.indexKey_bind (hw.endpointOk id) hm
    exact hw.set (fun _ => ⟨rfl, hkey.trans hk.symm⟩) ((hw.endpointOk id).bind hm)
  · -- the pending association moves to the endpoints under its new key
    have hm : (w.heap id).Matches source := .inr ⟨hk, hip⟩
    have hkey := Association.indexKey_bind (hw.endpointOk id) hm
    have hpend : w.registry.pending.lookup (normalize source.ip) = some id :=
      (hw.pending _ id).mpr ⟨hid, hk, hip⟩
    refine ⟨hw.arc, fun k x => ?_, fun ip x => ?_, fun x => ?_, ?_⟩
    · have he := hw.endpoints k x
      simp only [Registered, Heap.set_apply] at hid he ⊢
      grind
    · have hp := hw.pending ip x
      simp only [Registered, Heap.set_apply] at hid hp ⊢
      grind
    · simp only [Heap.set_apply]
      split
      · exact (hw.endpointOk id).bind hm
      · exact hw.endpointOk x
    · have hs := hw.size
      have he := Dict.size_erase_of_some hpend
      simp only [Dict.size_insert_of_none hl]
      omega
  · exact hw

/-- `remove` takes the entry and the one index entry of a registered association. -/
theorem remove_cases (hw : w.WellFormed) (id : ℕ) :
    (¬w.Registered id ∧ w.remove id = w) ∨
      (w.Registered id ∧ ∃ k, (w.heap id).indexKey = some k ∧
        w.registry.endpoints.lookup k = some id ∧
        w.remove id = { w with registry := { w.registry with
          entries := w.registry.entries.erase id
          endpoints := w.registry.endpoints.erase k } }) ∨
      (w.Registered id ∧ (w.heap id).indexKey = none ∧
        w.registry.pending.lookup (normalize (w.heap id).clientIp) = some id ∧
        w.remove id = { w with registry := { w.registry with
          entries := w.registry.entries.erase id
          pending := w.registry.pending.erase (normalize (w.heap id).clientIp) } }) := by
  rcases hentry : w.registry.entries.lookup id with _ | arc
  · refine .inl ⟨?_, by simp only [World.remove, hentry]⟩
    rw [Registered, hentry]
    exact nofun
  · obtain rfl := hw.arc id arc hentry
    rcases hk : (w.heap arc).indexKey with _ | k
    · have hp := (hw.pending _ arc).mpr ⟨hentry, hk, rfl⟩
      exact .inr (.inr ⟨hentry, rfl, hp, by simp only [World.remove, hentry, hk, hp, ↓reduceIte]⟩)
    · have he := (hw.endpoints _ arc).mpr ⟨hentry, hk⟩
      exact .inr (.inl ⟨hentry, k, rfl, he, by simp only [World.remove, hentry, hk, he, ↓reduceIte]⟩)

theorem heap_remove (hw : w.WellFormed) (id : ℕ) : (w.remove id).heap = w.heap := by
  rcases hw.remove_cases id with ⟨-, h⟩ | ⟨-, k, -, -, h⟩ | ⟨-, -, -, h⟩ <;> rw [h]

theorem registered_remove (hw : w.WellFormed) (id x : ℕ) :
    (w.remove id).Registered x ↔ x ≠ id ∧ w.Registered x := by
  rcases hw.remove_cases id with ⟨hno, h⟩ | ⟨-, k, -, -, h⟩ | ⟨-, -, -, h⟩ <;> rw [h]
  · refine ⟨fun hx => ⟨?_, hx⟩, And.right⟩
    rintro rfl
    exact hno hx
  · simp only [Registered, Dict.lookup_erase_eq]
    grind
  · simp only [Registered, Dict.lookup_erase_eq]
    grind

theorem remove (hw : w.WellFormed) (id : ℕ) : (w.remove id).WellFormed := by
  rcases hw.remove_cases id with ⟨-, h⟩ | ⟨hid, k, hk, he, h⟩ | ⟨hid, hk, hp, h⟩ <;> rw [h]
  · exact hw
  · refine ⟨fun x arc => ?_, fun k' x => ?_, fun ip x => ?_, hw.endpointOk, ?_⟩
    · have ha := hw.arc x arc
      grind
    · have he' := hw.endpoints k' x
      simp only [Registered] at hid he' ⊢
      grind
    · have hp := hw.pending ip x
      simp only [Registered] at hid hp ⊢
      grind
    · have hs := hw.size
      have h₁ := Dict.size_erase_of_some he
      have h₂ := Dict.size_erase_of_some hid
      simp only
      omega
  · refine ⟨fun x arc => ?_, fun k' x => ?_, fun ip x => ?_, hw.endpointOk, ?_⟩
    · have ha := hw.arc x arc
      grind
    · have he' := hw.endpoints k' x
      simp only [Registered] at hid he' ⊢
      grind
    · have hp' := hw.pending ip x
      simp only [Registered] at hid hp' ⊢
      grind
    · have hs := hw.size
      have h₁ := Dict.size_erase_of_some hp
      have h₂ := Dict.size_erase_of_some hid
      simp only
      omega

end WellFormed

theorem wellFormed_initial : initial.WellFormed where
  arc _ _ h := by cases h
  endpoints k id := by simp [initial, AssociationRegistry.default, Registered]
  pending ip id := by simp [initial, AssociationRegistry.default, Registered]
  endpointOk _ := Association.endpointOk_new _ _
  size := rfl

end World

end Brume.Server
