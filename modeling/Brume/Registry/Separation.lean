import Brume.Registry.Operations

/-!
# Clients of different addresses

The registry as its clients on one address see it. An operation whose
association or source has another normalised address reads and writes other
keys, so a run with these operations left out answers the others the same.
-/

namespace Brume.Server
open Lib

/-! ### Whose operation it is -/

/-- The normalised address of the association that `ops` insert under an id. -/
def ownerIp (ops : List Op) (id : ℕ) : Option IpAddr :=
  ops.findSome? fun op =>
    match op with
    | .insert id' clientIp _ => if id' = id then some (normalize clientIp) else none
    | _ => none

/-- The normalised address of the association or the source of an operation. An id
that is never inserted has no association. -/
def Op.ip? (owner : ℕ → Option IpAddr) : Op → Option IpAddr
  | .insert _ clientIp _ => some (normalize clientIp)
  | .find source => some (normalize source.ip)
  | .remove id | .storeDead id => owner id

/-- The operation is not one of another address. -/
def Op.concerns (owner : ℕ → Option IpAddr) (ip : IpAddr) (op : Op) : Bool :=
  match op.ip? owner with
  | some ip' => decide (ip' = ip)
  | none => true

theorem ownerIp_of_mem {ops : List Op} (hfresh : (insertedIds ops).Nodup) {id : ℕ} {clientIp : IpAddr}
    {port : UInt16} (h : .insert id clientIp port ∈ ops) : ownerIp ops id = some (normalize clientIp) := by
  induction ops with
  | nil => cases h
  | cons op ops ih =>
    have hids : insertedIds (op :: ops) = insertedIds [op] ++ insertedIds ops := insertedIds_append [op] ops
    rw [hids, List.nodup_append] at hfresh
    obtain ⟨-, htail, hdisj⟩ := hfresh
    rcases List.mem_cons.mp h with rfl | htl
    · simp [ownerIp]
    · have hmem : id ∈ insertedIds ops := List.mem_filterMap.mpr ⟨_, htl, rfl⟩
      have hrest := ih htail htl
      cases op with
      | insert id' ip' port' =>
        have hne : id' ≠ id := hdisj id' (by simp [insertedIds]) id hmem
        simpa [ownerIp, hne] using hrest
      | find _ => exact hrest
      | remove _ => exact hrest
      | storeDead _ => exact hrest

/-! ### Two registries that agree on an address -/

/-- `w'` knows of the associations with address `ip` what `w` knows, and no others.
`owner` tells the address of every association, also before its insert and after its removal. -/
structure Agree (owner : ℕ → Option IpAddr) (ip : IpAddr) (w w' : World) : Prop where
  heap : ∀ id, (∀ ip', owner id = some ip' → ip' = ip) → w'.heap id = w.heap id
  registered : ∀ id, w'.Registered id ↔ w.Registered id ∧ normalize (w.heap id).clientIp = ip
  owned : ∀ id, w.Registered id → owner id = some (normalize (w.heap id).clientIp)

namespace Agree
variable {owner : ℕ → Option IpAddr} {ip : IpAddr} {w w' : World}

/-- The registered associations of the address are the same objects. -/
theorem heap_registered (h : Agree owner ip w w') {id : ℕ} (hid : w.Registered id)
    (hip : normalize (w.heap id).clientIp = ip) : w'.heap id = w.heap id := by
  refine h.heap id fun ip' howner => ?_
  rw [h.owned id hid, hip] at howner
  exact (Option.some_inj.mp howner).symm

/-- Under the keys of the address the indexes are the same. -/
theorem endpoints (h : Agree owner ip w w') (hw : w.WellFormed) (hw' : w'.WellFormed) {k : SocketAddr}
    (hk : k.ip = ip) : w'.registry.endpoints.lookup k = w.registry.endpoints.lookup k := by
  apply Option.ext
  intro id
  rw [hw'.endpoints, hw.endpoints, h.registered]
  constructor
  · rintro ⟨⟨hid, hip⟩, hkey⟩
    rw [h.heap_registered hid hip] at hkey
    exact ⟨hid, hkey⟩
  · rintro ⟨hid, hkey⟩
    have hip : normalize (w.heap id).clientIp = ip := by
      rw [← Association.ip_of_indexKey (hw.endpointOk id) hkey, hk]
    rw [h.heap_registered hid hip]
    exact ⟨⟨hid, hip⟩, hkey⟩

theorem pending (h : Agree owner ip w w') (hw : w.WellFormed) (hw' : w'.WellFormed) :
    w'.registry.pending.lookup ip = w.registry.pending.lookup ip := by
  apply Option.ext
  intro id
  rw [hw'.pending, hw.pending, h.registered]
  constructor
  · rintro ⟨⟨hid, hip⟩, hkey, -⟩
    rw [h.heap_registered hid hip] at hkey
    exact ⟨hid, hkey, hip⟩
  · rintro ⟨hid, hkey, hip⟩
    rw [h.heap_registered hid hip]
    exact ⟨⟨hid, hip⟩, hkey, hip⟩

/-- Entries that an index of the address points to are the same. -/
theorem entries (h : Agree owner ip w w') (hw : w.WellFormed) (hw' : w'.WellFormed) {id : ℕ}
    (hip : normalize (w.heap id).clientIp = ip) :
    w'.registry.entries.lookup id = w.registry.entries.lookup id := by
  apply Option.ext
  intro arc
  constructor
  · intro harc
    have hid : w'.Registered id := by rw [World.Registered, harc, hw'.arc id arc harc]
    rw [hw'.arc id arc harc]
    exact ((h.registered id).mp hid).1
  · intro harc
    have hid : w.Registered id := by rw [World.Registered, harc, hw.arc id arc harc]
    rw [hw.arc id arc harc]
    exact (h.registered id).mpr ⟨hid, hip⟩

/-! ### Operations on the address, in both registries -/

/-- Changes that register nobody, move no address and keep the associations of `ip` the same. -/
theorem update (h : Agree owner ip w w') {w₁ w₁' : World}
    (hentries : w₁.registry.entries = w.registry.entries)
    (hentries' : w₁'.registry.entries = w'.registry.entries)
    (hip : ∀ id, w.Registered id → normalize (w₁.heap id).clientIp = normalize (w.heap id).clientIp)
    (hheap : ∀ id, (∀ ip', owner id = some ip' → ip' = ip) → w₁'.heap id = w₁.heap id) :
    Agree owner ip w₁ w₁' where
  heap := hheap
  registered id := by
    have hreg := h.registered id
    rw [World.Registered, World.Registered] at hreg ⊢
    rw [hentries, hentries', hreg]
    refine and_congr_right fun hid => ?_
    rw [hip id hid]
  owned id hid := by
    rw [World.Registered, hentries] at hid
    rw [hip id hid]
    exact h.owned id hid

/-- The same association is set in both. -/
theorem set (h : Agree owner ip w w') {w₁ w₁' : World} {id : ℕ} {a : Association}
    (hentries : w₁.registry.entries = w.registry.entries)
    (hentries' : w₁'.registry.entries = w'.registry.entries)
    (hheap : w₁.heap = w.heap.set id a) (hheap' : w₁'.heap = w'.heap.set id a)
    (hip : w.Registered id → normalize a.clientIp = normalize (w.heap id).clientIp) : Agree owner ip w₁ w₁' := by
  refine h.update hentries hentries' (fun x hx => ?_) fun x hx => ?_
  · rw [hheap, Heap.set_apply]
    split
    · rename_i heq
      subst heq
      exact hip hx
    · rfl
  · rw [hheap, hheap', Heap.set_apply, Heap.set_apply, h.heap x hx]

/-- An association of the address enters both. -/
theorem enter (h : Agree owner ip w w') {w₁ w₁' : World} {id : ℕ} (howner : owner id = some ip)
    (hip : normalize (w.heap id).clientIp = ip)
    (hentries : w₁.registry.entries = w.registry.entries.insert id id)
    (hentries' : w₁'.registry.entries = w'.registry.entries.insert id id)
    (hheap : w₁.heap = w.heap) (hheap' : w₁'.heap = w'.heap) : Agree owner ip w₁ w₁' where
  heap x hx := by
    rw [hheap, hheap']
    exact h.heap x hx
  registered x := by
    have hreg := h.registered x
    rw [World.Registered, World.Registered] at hreg ⊢
    rw [hentries, hentries', hheap, Dict.lookup_insert_eq, Dict.lookup_insert_eq]
    split
    · rename_i heq
      subst heq
      exact ⟨fun hx => ⟨hx, hip⟩, And.left⟩
    · exact hreg
  owned x hx := by
    rw [World.Registered, hentries, Dict.lookup_insert_eq] at hx
    rw [hheap]
    split at hx
    · rename_i heq
      subst heq
      rw [howner, hip]
    · exact h.owned x hx

theorem insert (h : Agree owner ip w w') (hw : w.WellFormed) (hw' : w'.WellFormed) {id : ℕ}
    (howner : owner id = some ip) (hip : normalize (w.heap id).clientIp = ip) :
    (w.insert id id).1 = (w'.insert id id).1 ∧ Agree owner ip (w.insert id id).2 (w'.insert id id).2 := by
  have hheap : w'.heap id = w.heap id := h.heap id fun ip' howner' => by
    rw [howner] at howner'
    exact (Option.some_inj.mp howner').symm
  subst hip
  have hpending := h.pending hw hw'
  have hendpoints := h.endpoints hw hw'
    (SocketAddr.ip_new (normalize (w.heap id).clientIp) (w.heap id).requestedPort)
  unfold World.insert
  rw [hheap]
  dsimp only
  rw [hpending, hendpoints]
  by_cases hp : (w.heap id).requestedPort = 0
  · rw [if_pos hp, if_pos hp]
    by_cases hs : (w.registry.pending.lookup (normalize (w.heap id).clientIp)).isSome
    · rw [if_pos hs, if_pos hs]
      exact ⟨rfl, h⟩
    · rw [if_neg hs, if_neg hs]
      exact ⟨rfl, h.enter howner rfl rfl rfl rfl rfl⟩
  · rw [if_neg hp, if_neg hp]
    by_cases hs : (w.registry.endpoints.lookup
        (SocketAddr.new (normalize (w.heap id).clientIp) (w.heap id).requestedPort)).isSome
    · rw [if_pos hs, if_pos hs]
      exact ⟨rfl, h⟩
    · rw [if_neg hs, if_neg hs]
      exact ⟨rfl, h.enter howner rfl rfl rfl rfl rfl⟩

/-- A lookup from the address meets the same index entries and the same associations. -/
theorem find (h : Agree owner ip w w') (hw : w.WellFormed) (hw' : w'.WellFormed) {source : SocketAddr}
    (hip : normalize source.ip = ip) :
    (w.find source).1 = (w'.find source).1 ∧ Agree owner ip (w.find source).2 (w'.find source).2 := by
  subst hip
  have hkey : (endpointKey source).ip = normalize source.ip := by rw [endpointKey, SocketAddr.ip_new]
  have hpending := h.pending hw hw'
  have hendpoints := h.endpoints hw hw' hkey
  rcases hw.find_cases source with ⟨id, hid, ha, hk, hf⟩ | ⟨id, hid, ha, hk, hidip, hl, hf⟩ | ⟨hno, hwait, hf⟩
  · -- a bound association of the address
    have hidip : normalize (w.heap id).clientIp = normalize source.ip := by
      rw [← Association.ip_of_indexKey (hw.endpointOk id) hk, hkey]
    have hheap := h.heap_registered hid hidip
    have he : w.registry.entries.lookup id = some id := hid
    have hlookup := (hw.endpoints _ id).mpr ⟨hid, hk⟩
    have hf' : w'.find source = (some id, { w' with heap := w'.heap.set id ((w.heap id).bind source) }) := by
      simp only [World.find, hendpoints, hlookup, h.entries hw hw' hidip, he, World.admits, hheap, ha,
        ↓reduceIte, Association.accepts_of_matches (hw.endpointOk id) (.inl hk)]
    rw [hf, hf']
    exact ⟨rfl, h.set rfl rfl rfl rfl fun _ => rfl⟩
  · -- a pending one
    have hheap := h.heap_registered hid hidip
    have he : w.registry.entries.lookup id = some id := hid
    have hlookup := (hw.pending _ id).mpr ⟨hid, hk, hidip⟩
    have hmatches : (w.heap id).Matches source := .inr ⟨hk, hidip⟩
    have hf' : w'.find source = (some id, {
        heap := w'.heap.set id ((w.heap id).bind source)
        registry := {
          entries := w'.registry.entries
          endpoints := w'.registry.endpoints.insert (endpointKey source) id
          pending := w'.registry.pending.erase (normalize source.ip) } }) := by
      simp only [World.find, hendpoints, hl, hpending, hlookup, h.entries hw hw' hidip, he, World.admits,
        hheap, ha, ↓reduceIte, Association.accepts_of_matches (hw.endpointOk id) hmatches]
    rw [hf, hf']
    exact ⟨rfl, h.set rfl rfl rfl rfl fun _ => rfl⟩
  · -- nobody that lives, in either
    have hf' : w'.find source = (none, w') := by
      rcases hw'.find_cases source with ⟨id, hid, ha, hk, -⟩ | ⟨id, hid, ha, hk, -, hl, -⟩ | ⟨-, -, hf'⟩
      · obtain ⟨hidw, hidip⟩ := (h.registered id).mp hid
        rw [h.heap_registered hidw hidip] at ha hk
        exact absurd hk (hno id hidw ha)
      · obtain ⟨hidw, hidip⟩ := (h.registered id).mp hid
        rw [h.heap_registered hidw hidip] at ha hk
        obtain ⟨other, hother, hotherk⟩ := hwait id hidw ha hk hidip
        rw [hendpoints, (hw.endpoints _ other).mpr ⟨hother, hotherk⟩] at hl
        cases hl
      · exact hf'
    rw [hf, hf']
    exact ⟨rfl, h⟩

theorem remove (h : Agree owner ip w w') (hw : w.WellFormed) (hw' : w'.WellFormed) (id : ℕ) :
    Agree owner ip (w.remove id) (w'.remove id) where
  heap x hx := by
    rw [hw.heap_remove, hw'.heap_remove]
    exact h.heap x hx
  registered x := by
    rw [hw.registered_remove, hw'.registered_remove, hw.heap_remove, h.registered x, and_assoc]
  owned x hx := by
    rw [hw.heap_remove]
    exact h.owned x ((hw.registered_remove id x).mp hx).2

/-! ### Operations on other addresses, in the first registry only -/

/-- Changes of associations with another address. -/
theorem updateLeft (h : Agree owner ip w w') {w₁ : World} {id : ℕ} {a : Association}
    (hentries : w₁.registry.entries = w.registry.entries) (hheap : w₁.heap = w.heap.set id a)
    (hip : w.Registered id → normalize a.clientIp = normalize (w.heap id).clientIp) {other : IpAddr}
    (howner : owner id = some other) (hne : other ≠ ip) : Agree owner ip w₁ w' := by
  refine h.update hentries rfl (fun x hx => ?_) fun x hx => ?_
  · rw [hheap, Heap.set_apply]
    split
    · rename_i heq
      subst heq
      exact hip hx
    · rfl
  · rw [hheap, Heap.set_apply, if_neg, h.heap x hx]
    rintro rfl
    exact hne (hx other howner)

theorem enterLeft (h : Agree owner ip w w') {w₁ : World} {id : ℕ}
    (howner : owner id = some (normalize (w.heap id).clientIp)) (hne : normalize (w.heap id).clientIp ≠ ip)
    (hnone : w.registry.entries.lookup id = none)
    (hentries : w₁.registry.entries = w.registry.entries.insert id id) (hheap : w₁.heap = w.heap) :
    Agree owner ip w₁ w' where
  heap x hx := by
    rw [hheap]
    exact h.heap x hx
  registered x := by
    have hreg := h.registered x
    rw [World.Registered, World.Registered] at hreg ⊢
    rw [hentries, hheap, hreg, Dict.lookup_insert_eq]
    split
    · rename_i heq
      subst heq
      simp [hnone, hne]
    · rfl
  owned x hx := by
    rw [World.Registered, hentries, Dict.lookup_insert_eq] at hx
    rw [hheap]
    split at hx
    · rename_i heq
      subst heq
      exact howner
    · exact h.owned x hx

theorem findLeft (h : Agree owner ip w w') (hw : w.WellFormed) {source : SocketAddr}
    (hne : normalize source.ip ≠ ip) : Agree owner ip (w.find source).2 w' := by
  rcases hw.find_cases source with ⟨id, hid, -, hk, hf⟩ | ⟨id, hid, -, -, hidip, -, hf⟩ | ⟨-, -, hf⟩ <;> rw [hf]
  · have hidip := Association.ip_of_indexKey (hw.endpointOk id) hk
    rw [endpointKey, SocketAddr.ip_new] at hidip
    exact h.updateLeft rfl rfl (fun _ => rfl) (h.owned id hid) (by rwa [← hidip])
  · exact h.updateLeft rfl rfl (fun _ => rfl) (h.owned id hid) (by rwa [hidip])
  · exact h

theorem removeLeft (h : Agree owner ip w w') (hw : w.WellFormed) {id : ℕ} {other : IpAddr}
    (howner : owner id = some other) (hne : other ≠ ip) : Agree owner ip (w.remove id) w' where
  heap x hx := by
    rw [hw.heap_remove]
    exact h.heap x hx
  registered x := by
    rw [h.registered x, hw.registered_remove, hw.heap_remove]
    refine ⟨fun hx => ⟨⟨?_, hx.1⟩, hx.2⟩, fun hx => ⟨hx.1.2, hx.2⟩⟩
    rintro rfl
    have howned := h.owned x hx.1
    rw [howner, hx.2] at howned
    exact hne (Option.some_inj.mp howned)
  owned x hx := by
    rw [hw.heap_remove]
    exact h.owned x ((hw.registered_remove id x).mp hx).2

end Agree

/-! ### Every sequence of operations -/

/-- What relates a run to the run without the operations of other addresses. -/
structure Separate (owner : ℕ → Option IpAddr) (ip : IpAddr) (ops : List Op) (w w' : World) : Prop where
  ready : Ready ops w
  ready' : Ready (ops.filter (Op.concerns owner ip)) w'
  agree : Agree owner ip w w'
  owned : ∀ id clientIp port, .insert id clientIp port ∈ ops → owner id = some (normalize clientIp)

namespace Separate
variable {owner : ℕ → Option IpAddr} {ip : IpAddr} {op : Op} {ops : List Op} {w w' : World}

theorem ready_kept (h : Separate owner ip (op :: ops) w w') (hop : op.concerns owner ip = true) :
    Ready (op :: ops.filter (Op.concerns owner ip)) w' := by
  have hready := h.ready'
  rwa [List.filter_cons, if_pos hop] at hready

theorem ready_dropped (h : Separate owner ip (op :: ops) w w') (hop : op.concerns owner ip = false) :
    Ready (ops.filter (Op.concerns owner ip)) w' := by
  have hready := h.ready'
  rwa [List.filter_cons, if_neg (by rw [hop]; decide)] at hready

/-- The association that an insert has just allocated, in both registries. -/
theorem alloc (h : Agree owner ip w w') {id : ℕ} {clientIp : IpAddr} {port : UInt16}
    (hnone : w.registry.entries.lookup id = none) :
    Agree owner ip (w.alloc id (.new clientIp port)) (w'.alloc id (.new clientIp port)) := by
  refine h.set rfl rfl rfl rfl fun hid => ?_
  rw [World.Registered, hnone] at hid
  cases hid

theorem kept (hop : op.concerns owner ip = true) (h : Separate owner ip (op :: ops) w w') :
    (World.step w op).1 = (World.step w' op).1 ∧
      Separate owner ip ops (World.step w op).2 (World.step w' op).2 := by
  have hready := h.ready_kept hop
  suffices hs : (World.step w op).1 = (World.step w' op).1 ∧
      Agree owner ip (World.step w op).2 (World.step w' op).2 from
    ⟨hs.1, h.ready.step, hready.step, hs.2, fun id clientIp port hm =>
      h.owned id clientIp port (List.mem_cons_of_mem _ hm)⟩
  have hw := h.ready.wellFormed
  have hw' := hready.wellFormed
  cases op with
  | insert id clientIp port =>
    have hip : normalize clientIp = ip := by simpa [Op.concerns, Op.ip?] using hop
    have howner := h.owned id clientIp port List.mem_cons_self
    rw [hip] at howner
    obtain ⟨hwf, hnone, hnew⟩ := h.ready.alloc
    obtain ⟨hwf', -, -⟩ := hready.alloc
    obtain ⟨hreply, hagree⟩ := (alloc h.agree hnone).insert hwf hwf' howner (by rw [hnew]; exact hip)
    exact ⟨congrArg Reply.inserted hreply, hagree⟩
  | find source =>
    have hip : normalize source.ip = ip := by simpa [Op.concerns, Op.ip?] using hop
    obtain ⟨hreply, hagree⟩ := h.agree.find hw hw' hip
    exact ⟨congrArg Reply.found hreply, hagree⟩
  | remove id => exact ⟨rfl, h.agree.remove hw hw' id⟩
  | storeDead id =>
    refine ⟨rfl, h.agree.update rfl rfl (fun x _ => ?_) fun x hx => ?_⟩
    · simp only [World.step, World.storeDead, Heap.set_apply]
      split
      · rename_i heq
        rw [heq]
      · rfl
    · simp only [World.step, World.storeDead, Heap.set_apply]
      split
      · rename_i heq
        rw [← heq, h.agree.heap x hx]
      · exact h.agree.heap x hx

/-- An operation of another address has an address, and it is not this one. -/
theorem other_of_dropped (hop : op.concerns owner ip = false) : ∃ other, op.ip? owner = some other ∧ other ≠ ip := by
  unfold Op.concerns at hop
  split at hop
  · rename_i other hother
    exact ⟨other, hother, of_decide_eq_false hop⟩
  · cases hop

theorem dropped (hop : op.concerns owner ip = false) (h : Separate owner ip (op :: ops) w w') :
    Separate owner ip ops (World.step w op).2 w' := by
  obtain ⟨other, hother, hne⟩ := other_of_dropped hop
  refine ⟨h.ready.step, h.ready_dropped hop, ?_, fun id clientIp port hm =>
    h.owned id clientIp port (List.mem_cons_of_mem _ hm)⟩
  have hw := h.ready.wellFormed
  cases op with
  | insert id clientIp port =>
    cases hother
    have howner := h.owned id clientIp port List.mem_cons_self
    obtain ⟨-, hnone, hnew⟩ := h.ready.alloc
    have hold : w.registry.entries.lookup id = none := hnone
    have halloc : Agree owner ip (w.alloc id (.new clientIp port)) w' :=
      h.agree.updateLeft rfl rfl (fun hid => by rw [World.Registered, hold] at hid; cases hid) howner hne
    have hip : normalize ((w.alloc id (.new clientIp port)).heap id).clientIp = normalize clientIp := by
      rw [hnew]
      rfl
    simp only [World.step]
    rcases World.WellFormed.insert_cases (by rw [hnew]; rfl) with hi | ⟨-, -, hi⟩ | ⟨k, -, -, hi⟩ <;> rw [hi]
    · exact halloc
    · exact halloc.enterLeft (by rw [hip]; exact howner) (by rw [hip]; exact hne) hnone rfl rfl
    · exact halloc.enterLeft (by rw [hip]; exact howner) (by rw [hip]; exact hne) hnone rfl rfl
  | find source =>
    cases hother
    exact h.agree.findLeft hw hne
  | remove id => exact h.agree.removeLeft hw hother hne
  | storeDead id => exact h.agree.updateLeft rfl rfl (fun _ => rfl) hother hne

theorem initial (hfresh : (insertedIds ops).Nodup) (ip : IpAddr) :
    Separate (ownerIp ops) ip ops World.initial World.initial where
  ready := Ready.initial hfresh
  ready' := by
    refine Ready.initial (List.Nodup.sublist ?_ hfresh)
    exact List.Sublist.filterMap _ List.filter_sublist
  agree := by
    refine ⟨fun _ _ => rfl, fun id => ?_, fun id hid => ?_⟩
    · simp [World.Registered, World.initial, AssociationRegistry.default]
    · simp [World.Registered, World.initial, AssociationRegistry.default] at hid
  owned id clientIp port hm := ownerIp_of_mem hfresh hm

end Separate

/-- Clients on different addresses do not interfere. Without the operations whose
association or source has another normalised address than `ip`, the remaining inserts
and lookups are answered the same, every association of `ip` ends in the same state,
registered or not, and so does every index entry under a key of `ip`. -/
theorem clients_do_not_interfere (ops : List Op) (hfresh : (insertedIds ops).Nodup) (ip : IpAddr) :
    let own := Op.concerns (ownerIp ops) ip
    let all := World.step.run World.initial ops
    let alone := World.step.run World.initial (ops.filter own)
    alone.1 = ((ops.zip all.1).filter (own ·.1)).map Prod.snd ∧
      (∀ id, ownerIp ops id = some ip → alone.2.heap id = all.2.heap id ∧
        (alone.2.Registered id ↔ all.2.Registered id)) ∧
      (∀ k, k.ip = ip → alone.2.registry.endpoints.lookup k = all.2.registry.endpoints.lookup k) ∧
      alone.2.registry.pending.lookup ip = all.2.registry.pending.lookup ip := by
  intro own all alone
  obtain ⟨hreplies, hend⟩ := Machine.run_filter World.step own (Separate (ownerIp ops) ip)
    (fun _ _ _ _ hop h => h.kept hop) (fun _ _ _ _ hop h => h.dropped hop) (Separate.initial hfresh ip)
  have hw := hend.ready.wellFormed
  have hw' := hend.ready'.wellFormed
  refine ⟨hreplies, fun id howner => ⟨?_, ?_⟩, fun k hk => hend.agree.endpoints hw hw' hk,
    hend.agree.pending hw hw'⟩
  · refine hend.agree.heap id fun ip' howner' => ?_
    rw [howner] at howner'
    exact (Option.some_inj.mp howner').symm
  · rw [hend.agree.registered]
    refine ⟨And.left, fun hid => ⟨hid, ?_⟩⟩
    have howned := hend.agree.owned id hid
    rw [howner] at howned
    exact (Option.some_inj.mp howned).symm

/-- Client 2 of another address inserts, sends and is removed between the steps of client 1. -/
theorem clients_do_not_interfere_pending :
    (World.step.run World.initial (List.filter (Op.concerns (ownerIp
        [.insert 1 (.v4 ⟨#v[192, 0, 2, 1]⟩) 0, .insert 2 (.v4 ⟨#v[192, 0, 2, 2]⟩) 0,
          .find (.v4 ⟨#v[192, 0, 2, 2]⟩ 4000), .find (.v4 ⟨#v[192, 0, 2, 1]⟩ 4000), .remove 2])
        (.v4 ⟨#v[192, 0, 2, 1]⟩))
        [.insert 1 (.v4 ⟨#v[192, 0, 2, 1]⟩) 0, .insert 2 (.v4 ⟨#v[192, 0, 2, 2]⟩) 0,
          .find (.v4 ⟨#v[192, 0, 2, 2]⟩ 4000), .find (.v4 ⟨#v[192, 0, 2, 1]⟩ 4000), .remove 2])).2.registry.pending.lookup
        (.v4 ⟨#v[192, 0, 2, 1]⟩) =
      (World.step.run World.initial
        [.insert 1 (.v4 ⟨#v[192, 0, 2, 1]⟩) 0, .insert 2 (.v4 ⟨#v[192, 0, 2, 2]⟩) 0,
          .find (.v4 ⟨#v[192, 0, 2, 2]⟩ 4000), .find (.v4 ⟨#v[192, 0, 2, 1]⟩ 4000), .remove 2]).2.registry.pending.lookup
        (.v4 ⟨#v[192, 0, 2, 1]⟩) :=
  (clients_do_not_interfere
      [.insert 1 (.v4 ⟨#v[192, 0, 2, 1]⟩) 0, .insert 2 (.v4 ⟨#v[192, 0, 2, 2]⟩) 0,
        .find (.v4 ⟨#v[192, 0, 2, 2]⟩ 4000), .find (.v4 ⟨#v[192, 0, 2, 1]⟩ 4000), .remove 2]
      (by decide) (.v4 ⟨#v[192, 0, 2, 1]⟩)).2.2.2

end Brume.Server
