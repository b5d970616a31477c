import Brume.Registry.Operations

/-!
# The registry as a plain list

What the three maps are for: a list of records in which a source is looked up by
its key, then among the records that still wait for a port. The registry gives
the same answers along every run.
-/

namespace Brume.Server
open Lib

/-- An association as the plain list keeps it. -/
structure Record where
  id : ℕ
  ip : IpAddr
  requestedPort : UInt16
  learnedPort : Option UInt16
  alive : Bool
  deriving DecidableEq

namespace Record

def key (r : Record) : Option (IpAddr × UInt16) :=
  if r.requestedPort ≠ 0 then some (r.ip, r.requestedPort) else r.learnedPort.map (r.ip, ·)

/-- A record for `ip` that has no port yet. -/
def Waits (r : Record) (ip : IpAddr) : Prop :=
  r.ip = ip ∧ r.requestedPort = 0 ∧ r.learnedPort = none

instance (r : Record) (ip : IpAddr) : Decidable (r.Waits ip) := inferInstanceAs (Decidable (_ ∧ _ ∧ _))

end Record

namespace NaiveRegistry

def insert (l : List Record) (r : Record) : Bool × List Record :=
  if r.requestedPort ≠ 0 then
    if ∃ x ∈ l, x.key = some (r.ip, r.requestedPort) then (false, l) else (true, r :: l)
  else if ∃ x ∈ l, x.Waits r.ip then (false, l)
  else (true, r :: l)

def find (l : List Record) (source : SocketAddr) : Option ℕ × List Record :=
  let ip := normalize source.ip
  match l.find? (·.key = some (ip, source.port)) with
  | some r => (if r.alive then some r.id else none, l)
  | none =>
    match l.find? (·.Waits ip) with
    | some r =>
      if r.alive then
        (some r.id, l.map fun x => if x.id = r.id then { x with learnedPort := some source.port } else x)
      else (none, l)
    | none => (none, l)

def remove (l : List Record) (id : ℕ) : List Record := l.filter (·.id ≠ id)

def storeDead (l : List Record) (id : ℕ) : List Record :=
  l.map fun x => if x.id = id then { x with alive := false } else x

def step : Machine (List Record) Op Reply := fun l op =>
  match op with
  | .insert id clientIp requestedPort =>
    let (accepted, l) := insert l ⟨id, normalize clientIp, requestedPort, none, true⟩
    (.inserted accepted, l)
  | .find source =>
    let (association, l) := find l source
    (.found association, l)
  | .remove id => (.done, remove l id)
  | .storeDead id => (.done, storeDead l id)

end NaiveRegistry

/-! ### The abstraction -/

/-- The record of an association. The endpoint of an association that asked for
a port does not count as learned. -/
def Association.record (id : ℕ) (a : Association) : Record where
  id
  ip := normalize a.clientIp
  requestedPort := a.requestedPort
  learnedPort := if a.requestedPort = 0 then a.endpoint.map SocketAddr.port else none
  alive := a.alive

@[simp] theorem Association.record_id (id : ℕ) (a : Association) : (a.record id).id = id := rfl

/-- An association that was indexed under the key of the source keeps its record. -/
theorem Association.record_bind_of_indexed {a : Association} {source : SocketAddr}
    (hk : a.indexKey = some (endpointKey source)) (id : ℕ) : (a.bind source).record id = a.record id := by
  unfold Association.record
  by_cases hp : a.requestedPort = 0
  · rw [indexKey, if_neg (not_not.mpr hp)] at hk
    obtain ⟨e, he, hkey⟩ := Option.map_eq_some_iff.mp hk
    simp [hp, he, (endpointKey_inj.mp hkey).2]
  · simp [hp]

theorem Association.record_key (id : ℕ) (a : Association) :
    (a.record id).key = a.port?.map (normalize a.clientIp, ·) := by
  unfold Record.key Association.port? Association.record
  by_cases hp : a.requestedPort = 0
  · simp [hp]
  · simp [hp]

theorem Association.record_key_iff {a : Association} (h : a.EndpointOk) (id : ℕ) (ip : IpAddr)
    (port : UInt16) :
    (a.record id).key = some (ip, port) ↔ a.indexKey = some (SocketAddr.new ip port) := by
  rw [record_key, indexKey_eq h, Option.map_eq_some_iff, Option.map_eq_some_iff]
  refine exists_congr fun p => and_congr_right fun _ => ?_
  rw [SocketAddr.new_inj, Prod.mk.injEq]

theorem Association.record_waits_iff (id : ℕ) (a : Association) (ip : IpAddr) :
    (a.record id).Waits ip ↔ a.indexKey = none ∧ normalize a.clientIp = ip := by
  rw [indexKey_eq_none]
  unfold Record.Waits Association.record
  by_cases hp : a.requestedPort = 0
  · simp [hp, and_comm]
  · simp [hp]

/-- The list holds the records of the registered associations. -/
def Refines (w : World) (l : List Record) : Prop :=
  ∀ r, r ∈ l ↔ w.Registered r.id ∧ r = (w.heap r.id).record r.id

namespace Refines
variable {w : World} {l : List Record}

theorem mem (h : Refines w l) {id : ℕ} (hid : w.Registered id) : (w.heap id).record id ∈ l :=
  (h _).mpr ⟨hid, rfl⟩

/-- The records with the key of a source are those of the association indexed under it. -/
theorem find?_key (h : Refines w l) (hw : w.WellFormed) {id : ℕ} (hid : w.Registered id)
    {source : SocketAddr} (hk : (w.heap id).indexKey = some (endpointKey source)) :
    l.find? (·.key = some (normalize source.ip, source.port)) = some ((w.heap id).record id) := by
  rcases hf : l.find? (·.key = some (normalize source.ip, source.port)) with _ | r
  · have hno := List.find?_eq_none.mp hf _ (h.mem hid)
    simp only [decide_eq_true_eq] at hno
    exact absurd ((Association.record_key_iff (hw.endpointOk id) id _ _).mpr hk) hno
  · obtain ⟨hr, hreq⟩ := (h r).mp (List.mem_of_find?_eq_some hf)
    have hkey := List.find?_some hf
    rw [decide_eq_true_eq, hreq, Association.record_key_iff (hw.endpointOk r.id)] at hkey
    have h₁ := (hw.endpoints _ r.id).mpr ⟨hr, hkey⟩
    have h₂ := (hw.endpoints _ id).mpr ⟨hid, hk⟩
    rw [endpointKey, h₁] at h₂
    exact hf.trans (congrArg some (hreq.trans (by rw [Option.some_inj.mp h₂])))

theorem find?_key_none (h : Refines w l) (hw : w.WellFormed) {source : SocketAddr}
    (hno : ∀ id, w.Registered id → ¬(w.heap id).indexKey = some (endpointKey source)) :
    l.find? (·.key = some (normalize source.ip, source.port)) = none := by
  refine List.find?_eq_none.mpr fun r hr => ?_
  obtain ⟨hreg, hreq⟩ := (h r).mp hr
  rw [decide_eq_true_eq, hreq, Association.record_key_iff (hw.endpointOk r.id)]
  exact hno r.id hreg

theorem find?_waits (h : Refines w l) (hw : w.WellFormed) {id : ℕ} (hid : w.Registered id) {ip : IpAddr}
    (hk : (w.heap id).indexKey = none) (hip : normalize (w.heap id).clientIp = ip) :
    l.find? (·.Waits ip) = some ((w.heap id).record id) := by
  rcases hf : l.find? (·.Waits ip) with _ | r
  · have hno := List.find?_eq_none.mp hf _ (h.mem hid)
    simp only [decide_eq_true_eq] at hno
    exact absurd ((Association.record_waits_iff id _ ip).mpr ⟨hk, hip⟩) hno
  · obtain ⟨hr, hreq⟩ := (h r).mp (List.mem_of_find?_eq_some hf)
    have hwaits := List.find?_some hf
    rw [decide_eq_true_eq, hreq, Association.record_waits_iff] at hwaits
    have h₁ := (hw.pending _ r.id).mpr ⟨hr, hwaits⟩
    rw [(hw.pending _ id).mpr ⟨hid, hk, hip⟩] at h₁
    exact hf.trans (congrArg some (hreq.trans (by rw [← Option.some_inj.mp h₁])))

theorem find?_waits_none (h : Refines w l) {ip : IpAddr}
    (hno : ∀ id, w.Registered id → (w.heap id).indexKey = none → ¬normalize (w.heap id).clientIp = ip) :
    l.find? (·.Waits ip) = none := by
  refine List.find?_eq_none.mpr fun r hr => ?_
  obtain ⟨hreg, hreq⟩ := (h r).mp hr
  rw [decide_eq_true_eq, hreq, Association.record_waits_iff]
  exact fun hc => hno r.id hreg hc.1 hc.2

/-! ### One operation -/

/-- A change of one association, and the same change of its record. -/
theorem update (h : Refines w l) {w' : World} {id : ℕ} {a : Association} (f : Record → Record)
    (hentries : w'.registry.entries = w.registry.entries) (hheap : w'.heap = w.heap.set id a)
    (hid : ∀ r, (f r).id = r.id) (hf : f ((w.heap id).record id) = a.record id) :
    Refines w' (l.map fun x => if x.id = id then f x else x) := by
  have hreg : ∀ x, w'.Registered x ↔ w.Registered x := by
    intro x
    rw [World.Registered, hentries]
    rfl
  intro r
  rw [List.mem_map, hreg, hheap, Heap.set_apply]
  constructor
  · rintro ⟨x, hx, rfl⟩
    obtain ⟨hxreg, hxeq⟩ := (h x).mp hx
    by_cases hxid : x.id = id
    · subst hxid
      simp only [↓reduceIte, hid]
      exact ⟨hxreg, by rw [← hf, ← hxeq]⟩
    · simp only [hxid, ↓reduceIte]
      exact ⟨hxreg, hxeq⟩
  · rintro ⟨hr, hreq⟩
    refine ⟨(w.heap r.id).record r.id, h.mem hr, ?_⟩
    by_cases hrid : r.id = id
    · subst hrid
      rw [if_pos rfl] at hreq
      rw [Association.record_id, if_pos rfl, hf, ← hreq]
    · rw [if_neg hrid] at hreq
      rw [Association.record_id, if_neg hrid, ← hreq]

theorem storeDead (h : Refines w l) (id : ℕ) :
    Refines (w.storeDead id) (NaiveRegistry.storeDead l id) :=
  h.update _ rfl rfl (fun _ => rfl) rfl

theorem remove (h : Refines w l) (hw : w.WellFormed) (id : ℕ) :
    Refines (w.remove id) (NaiveRegistry.remove l id) := by
  intro r
  rw [NaiveRegistry.remove, List.mem_filter, h r, hw.registered_remove, hw.heap_remove, decide_eq_true_eq]
  tauto

theorem find (h : Refines w l) (hw : w.WellFormed) (source : SocketAddr) :
    (w.find source).1 = (NaiveRegistry.find l source).1 ∧
      Refines (w.find source).2 (NaiveRegistry.find l source).2 := by
  unfold NaiveRegistry.find
  rcases hw.find_cases source with ⟨id, hid, ha, hk, hf⟩ | ⟨id, hid, ha, hk, hip, hl, hf⟩ | ⟨hno, hno', hf⟩ <;>
    rw [hf]
  · -- the bound association: the list does not change
    have halive : ((w.heap id).record id).alive = true := ha
    simp only [h.find?_key hw hid hk, halive, ↓reduceIte]
    refine ⟨rfl, ?_⟩
    have hu : Refines { w with heap := w.heap.set id ((w.heap id).bind source) }
        (l.map fun x => if x.id = id then x else x) :=
      h.update (fun x => x) rfl rfl (fun _ => rfl) (Association.record_bind_of_indexed hk id).symm
    simpa using hu
  · -- a pending association learns its port
    have halive : ((w.heap id).record id).alive = true := ha
    have hnokey : ∀ x, w.Registered x → ¬(w.heap x).indexKey = some (endpointKey source) := by
      intro x hx hxk
      rw [(hw.endpoints _ x).mpr ⟨hx, hxk⟩] at hl
      cases hl
    simp only [h.find?_key_none hw hnokey, h.find?_waits hw hid hk hip, halive, ↓reduceIte]
    refine ⟨rfl, h.update _ rfl rfl (fun _ => rfl) ?_⟩
    simp [Association.record, (Association.indexKey_eq_none.mp hk).1]
  · rcases he : w.registry.endpoints.lookup (endpointKey source) with _ | id
    · have hnokey : ∀ x, w.Registered x → ¬(w.heap x).indexKey = some (endpointKey source) := by
        intro x hx hxk
        rw [(hw.endpoints _ x).mpr ⟨hx, hxk⟩] at he
        cases he
      rcases hp : w.registry.pending.lookup (normalize source.ip) with _ | id
      · have hnowait : ∀ x, w.Registered x → (w.heap x).indexKey = none →
            ¬normalize (w.heap x).clientIp = normalize source.ip := by
          intro x hx hxk hip
          rw [(hw.pending _ x).mpr ⟨hx, hxk, hip⟩] at hp
          cases hp
        simp only [h.find?_key_none hw hnokey, h.find?_waits_none hnowait]
        exact ⟨trivial, h⟩
      · obtain ⟨hid, hk, hip⟩ := (hw.pending _ id).mp hp
        have hdead : ¬((w.heap id).record id).alive = true := fun ha => by
          obtain ⟨other, ho, hok⟩ := hno' id hid ha hk hip
          exact hnokey other ho hok
        simp only [h.find?_key_none hw hnokey, h.find?_waits hw hid hk hip, hdead]
        exact ⟨rfl, h⟩
    · obtain ⟨hid, hk⟩ := (hw.endpoints _ id).mp he
      have hdead : ¬((w.heap id).record id).alive = true := fun ha => hno id hid ha hk
      simp only [h.find?_key hw hid hk, hdead]
      exact ⟨rfl, h⟩

end Refines

theorem Refines.exists_key_iff {w : World} {l : List Record} (h : Refines w l) (hw : w.WellFormed)
    (ip : IpAddr) (port : UInt16) :
    (∃ x ∈ l, x.key = some (ip, port)) ↔ (w.registry.endpoints.lookup (SocketAddr.new ip port)).isSome := by
  rw [Option.isSome_iff_exists]
  constructor
  · rintro ⟨x, hx, hk⟩
    obtain ⟨hreg, hxeq⟩ := (h x).mp hx
    rw [hxeq, Association.record_key_iff (hw.endpointOk x.id)] at hk
    exact ⟨x.id, (hw.endpoints _ x.id).mpr ⟨hreg, hk⟩⟩
  · rintro ⟨id, hid⟩
    obtain ⟨hreg, hk⟩ := (hw.endpoints _ id).mp hid
    exact ⟨_, h.mem hreg, (Association.record_key_iff (hw.endpointOk id) id _ _).mpr hk⟩

theorem Refines.exists_waits_iff {w : World} {l : List Record} (h : Refines w l) (hw : w.WellFormed)
    (ip : IpAddr) : (∃ x ∈ l, x.Waits ip) ↔ (w.registry.pending.lookup ip).isSome := by
  rw [Option.isSome_iff_exists]
  constructor
  · rintro ⟨x, hx, hk⟩
    obtain ⟨hreg, hxeq⟩ := (h x).mp hx
    rw [hxeq, Association.record_waits_iff] at hk
    exact ⟨x.id, (hw.pending _ x.id).mpr ⟨hreg, hk⟩⟩
  · rintro ⟨id, hid⟩
    obtain ⟨hreg, hk⟩ := (hw.pending _ id).mp hid
    exact ⟨_, h.mem hreg, (Association.record_waits_iff id _ ip).mpr hk⟩

/-- The fresh association at `id` becomes the first record. -/
theorem Refines.cons {w w' : World} {l : List Record} (h : Refines w l) {id : ℕ} {ip : IpAddr}
    {port : UInt16} (hnone : w.registry.entries.lookup id = none) (hnew : w.heap id = .new ip port)
    (hheap : w'.heap = w.heap) (hentries : w'.registry.entries = w.registry.entries.insert id id) :
    Refines w' (⟨id, normalize ip, port, none, true⟩ :: l) := by
  have hrec : (w.heap id).record id = ⟨id, normalize ip, port, none, true⟩ := by
    simp [hnew, Association.new, Association.record]
  intro r
  rw [List.mem_cons, h r, World.Registered, World.Registered, hentries, hheap, Dict.lookup_insert_eq]
  by_cases hr : r.id = id
  · rw [hr, hrec, if_pos rfl]
    simp [hnone]
  · have hno : r ≠ ⟨id, normalize ip, port, none, true⟩ := fun h0 => hr (by rw [h0])
    rw [if_neg hr]
    simp only [hno, false_or]

/-- Insert of the fresh association at `id`. -/
theorem Refines.insert {w : World} {l : List Record} (h : Refines w l) (hw : w.WellFormed) {id : ℕ}
    {ip : IpAddr} {port : UInt16} (hnone : w.registry.entries.lookup id = none)
    (hnew : w.heap id = .new ip port) :
    (w.insert id id).1 = (NaiveRegistry.insert l ⟨id, normalize ip, port, none, true⟩).1 ∧
      Refines (w.insert id id).2 (NaiveRegistry.insert l ⟨id, normalize ip, port, none, true⟩).2 := by
  obtain rfl : (w.heap id).requestedPort = port := by rw [hnew]; rfl
  obtain rfl : (w.heap id).clientIp = ip := by rw [hnew]; rfl
  unfold World.insert NaiveRegistry.insert
  by_cases hp : (w.heap id).requestedPort = 0
  · rw [if_pos hp, if_neg (not_not.mpr hp)]
    simp only [h.exists_waits_iff hw]
    by_cases hs : (w.registry.pending.lookup (normalize (w.heap id).clientIp)).isSome
    · rw [if_pos hs, if_pos hs]
      exact ⟨rfl, h⟩
    · rw [if_neg hs, if_neg hs]
      exact ⟨rfl, h.cons hnone hnew rfl rfl⟩
  · rw [if_neg hp, if_pos hp]
    simp only [h.exists_key_iff hw]
    by_cases hs : (w.registry.endpoints.lookup
        (SocketAddr.new (normalize (w.heap id).clientIp) (w.heap id).requestedPort)).isSome
    · rw [if_pos hs, if_pos hs]
      exact ⟨rfl, h⟩
    · rw [if_neg hs, if_neg hs]
      exact ⟨rfl, h.cons hnone hnew rfl rfl⟩

/-- An association that is not registered is not in the list either. -/
theorem Refines.alloc {w : World} {l : List Record} (h : Refines w l) {id : ℕ}
    (hnone : w.registry.entries.lookup id = none) (a : Association) : Refines (w.alloc id a) l := by
  intro r
  rw [h r]
  refine and_congr_right fun hr => ?_
  have hne : r.id ≠ id := by
    intro heq
    rw [World.Registered, heq, hnone] at hr
    cases hr
  simp only [World.alloc, Heap.set_apply, if_neg hne]

/-- One operation: equal answers, and the list stays the list of the registry. -/
theorem Refines.step {w : World} {l : List Record} {op : Op} {ops : List Op}
    (h : Ready (op :: ops) w ∧ Refines w l) :
    (World.step w op).1 = (NaiveRegistry.step l op).1 ∧
      Ready ops (World.step w op).2 ∧ Refines (World.step w op).2 (NaiveRegistry.step l op).2 := by
  obtain ⟨hready, h⟩ := h
  suffices hs : (World.step w op).1 = (NaiveRegistry.step l op).1 ∧
      Refines (World.step w op).2 (NaiveRegistry.step l op).2 from ⟨hs.1, hready.step, hs.2⟩
  cases op with
  | insert id ip port =>
    obtain ⟨hwf, hnone, hnew⟩ := hready.alloc
    obtain ⟨h₁, h₂⟩ := (h.alloc hnone _).insert hwf hnone hnew
    exact ⟨congrArg Reply.inserted h₁, h₂⟩
  | find source =>
    obtain ⟨h₁, h₂⟩ := h.find hready.wellFormed source
    exact ⟨congrArg Reply.found h₁, h₂⟩
  | remove id => exact ⟨rfl, h.remove hready.wellFormed id⟩
  | storeDead id => exact ⟨rfl, h.storeDead id⟩

/-- The registry refines the plain list: equal answers along every run, the same
associations at its end, and every association that `find` returns is bound to
the source it was asked for. -/
theorem registry_refines_list (ops : List Op) (hfresh : (insertedIds ops).Nodup) :
    (World.step.run World.initial ops).1 = (NaiveRegistry.step.run [] ops).1 ∧
      Refines (World.step.run World.initial ops).2 (NaiveRegistry.step.run [] ops).2 ∧
      ∀ pre source post, ops = pre ++ .find source :: post → ∀ id,
        (World.step (World.step.run World.initial pre).2 (.find source)).1 = .found (some id) →
        ((World.step (World.step.run World.initial pre).2 (.find source)).2.heap id).endpoint =
          some source := by
  have hinit : Refines World.initial [] := by
    intro r
    simp [World.initial, World.Registered, AssociationRegistry.default]
  obtain ⟨hanswers, -, hend⟩ := Machine.run_simulation World.step NaiveRegistry.step
    (fun ops w l => Ready ops w ∧ Refines w l) (fun _ _ _ _ h => Refines.step h)
    ⟨Ready.initial hfresh, hinit⟩
  refine ⟨hanswers, hend, ?_⟩
  rintro pre source post rfl id hfound
  have hready : Ready (.find source :: post) _ := (Ready.initial hfresh).run
  simp only [World.step] at hfound ⊢
  rcases hready.wellFormed.find_cases source with ⟨x, -, -, -, hf⟩ | ⟨x, -, -, -, -, -, hf⟩ | ⟨-, -, hf⟩ <;>
    rw [hf] at hfound ⊢ <;> simp only [Reply.found.injEq, Option.some_inj, reduceCtorEq] at hfound
  · subst hfound
    simp [Association.bind]
  · subst hfound
    simp [Association.bind]

/-- A pending association is bound, blocks its own address and port, and frees them. -/
theorem registry_refines_list_lifecycle :
    (NaiveRegistry.step.run []
        [.insert 1 (.v4 ⟨#v[192, 0, 2, 1]⟩) 0, .find (.v4 ⟨#v[192, 0, 2, 1]⟩ 4000),
          .insert 2 (.v4 ⟨#v[192, 0, 2, 1]⟩) 4000, .remove 1, .insert 3 (.v4 ⟨#v[192, 0, 2, 1]⟩) 4000]).1 =
      [.inserted true, .found (some 1), .inserted false, .done, .inserted true] ∧
    (World.step.run World.initial
        [.insert 1 (.v4 ⟨#v[192, 0, 2, 1]⟩) 0, .find (.v4 ⟨#v[192, 0, 2, 1]⟩ 4000),
          .insert 2 (.v4 ⟨#v[192, 0, 2, 1]⟩) 4000, .remove 1, .insert 3 (.v4 ⟨#v[192, 0, 2, 1]⟩) 4000]).1 =
      (NaiveRegistry.step.run []
        [.insert 1 (.v4 ⟨#v[192, 0, 2, 1]⟩) 0, .find (.v4 ⟨#v[192, 0, 2, 1]⟩ 4000),
          .insert 2 (.v4 ⟨#v[192, 0, 2, 1]⟩) 4000, .remove 1, .insert 3 (.v4 ⟨#v[192, 0, 2, 1]⟩) 4000]).1 :=
  ⟨by decide, (registry_refines_list _ (by decide)).1⟩

end Brume.Server
