import Mathlib.Data.List.Basic
import Mathlib.Logic.Function.Basic

/-!
# Tables of cells that are filled once

A table maps keys to slots. A slot has a cell, which the first user that gets to
it claims and fills, with an item or with a failure. An item is active until it is
retired, and has a guard from before it is published until it is cleaned up. Users
and guards take a slot out of the table by comparison with the slot they hold, so
a late removal leaves a successor alone.

Slots do not move between keys: `owner` names the key of every slot there was.
-/

namespace Lib

namespace OnceTable

inductive Cell where
  | empty
  | filling (user : ℕ)
  | failed
  | ready (item : ℕ)

/-- What a user of the table is about to do. -/
inductive Role where
  | idle
  | waiting (slot : ℕ)
  | filling (slot : ℕ)
  | publishing (slot item : ℕ)
  | discarding (slot : ℕ)
  | holding (slot item : ℕ)
  | retiring (slot : ℕ)

namespace Role

def slot? : Role → Option ℕ
  | .idle => none
  | .waiting slot | .filling slot | .publishing slot _ | .discarding slot | .holding slot _ | .retiring slot =>
    some slot

/-- The slot whose cell the user has claimed. -/
@[grind] def fills? : Role → Option ℕ
  | .filling slot | .publishing slot _ => some slot
  | _ => none

/-- The user will see the slot filled, or remove it. -/
def Owes (role : Role) (slot : ℕ) : Prop :=
  role = .waiting slot ∨ role.fills? = some slot ∨ role = .discarding slot

end Role

structure Guard (K : Type) where
  key : K
  slot : ℕ
  retired : Bool

end OnceTable

open OnceTable

structure OnceTable (K : Type) where
  key : K → Option ℕ
  cell : ℕ → Cell
  active : ℕ → Bool
  user : ℕ → Option (K × Role)
  guard : ℕ → Option (Guard K)
  nextSlot : ℕ
  nextItem : ℕ

namespace OnceTable
variable {K : Type}

attribute [grind =] Function.update_apply

/-! ### Operations -/

/-- User `u` comes, goes or moves on. -/
def assign (t : OnceTable K) (u : ℕ) (o : Option (K × Role)) : OnceTable K :=
  { t with user := Function.update t.user u o }

/-- User `u` puts a new slot under its key. -/
def insert [DecidableEq K] (t : OnceTable K) (u : ℕ) (k : K) : OnceTable K :=
  { t with
    key := Function.update t.key k (some t.nextSlot)
    cell := Function.update t.cell t.nextSlot .empty
    user := Function.update t.user u (some (k, .waiting t.nextSlot))
    nextSlot := t.nextSlot + 1 }

def claim (t : OnceTable K) (u : ℕ) (k : K) (slot : ℕ) : OnceTable K :=
  { t with
    cell := Function.update t.cell slot (.filling u)
    user := Function.update t.user u (some (k, .filling slot)) }

/-- User `u` makes the item of its slot, with its guard. -/
def make (t : OnceTable K) (u : ℕ) (k : K) (slot : ℕ) : OnceTable K :=
  { t with
    active := Function.update t.active t.nextItem true
    user := Function.update t.user u (some (k, .publishing slot t.nextItem))
    guard := Function.update t.guard t.nextItem (some ⟨k, slot, false⟩)
    nextItem := t.nextItem + 1 }

def publish (t : OnceTable K) (u : ℕ) (k : K) (slot f : ℕ) : OnceTable K :=
  { t with
    cell := Function.update t.cell slot (.ready f)
    user := Function.update t.user u (some (k, .holding slot f)) }

def fail (t : OnceTable K) (u : ℕ) (k : K) (slot : ℕ) : OnceTable K :=
  { t with
    cell := Function.update t.cell slot .failed
    user := Function.update t.user u (some (k, .discarding slot)) }

def remove [DecidableEq K] (t : OnceTable K) (k : K) (slot : ℕ) : OnceTable K :=
  if t.key k = some slot then { t with key := Function.update t.key k none } else t

def deactivate (t : OnceTable K) (f : ℕ) : OnceTable K :=
  { t with active := Function.update t.active f false }

/-- The guard of `f` is retired or gone. -/
def setGuard (t : OnceTable K) (f : ℕ) (o : Option (Guard K)) : OnceTable K :=
  { t with guard := Function.update t.guard f o }

section
variable [DecidableEq K] (t : OnceTable K) (k : K) (slot : ℕ)

theorem remove_key : (t.remove k slot).key k ≠ some slot := by
  unfold remove
  split
  · simp
  · assumption

theorem remove_user : (t.remove k slot).user = t.user := by
  unfold remove
  split <;> rfl

theorem remove_guard : (t.remove k slot).guard = t.guard := by
  unfold remove
  split <;> rfl

theorem remove_active : (t.remove k slot).active = t.active := by
  unfold remove
  split <;> rfl

theorem remove_assign (u : ℕ) (o : Option (K × Role)) :
    (t.assign u o).remove k slot = (t.remove k slot).assign u o := by
  unfold remove assign
  dsimp only
  split <;> rfl

theorem remove_setGuard (f : ℕ) (o : Option (Guard K)) :
    (t.setGuard f o).remove k slot = (t.remove k slot).setGuard f o := by
  unfold remove setGuard
  dsimp only
  split <;> rfl

end

/-! ### The invariant -/

/-- `f` is the item of the slot, published or about to be. -/
@[grind] def Made (t : OnceTable K) (slot f : ℕ) : Prop :=
  t.cell slot = .ready f ∨ ∃ u k, t.cell slot = .filling u ∧ t.user u = some (k, .publishing slot f)

/-- A slot that may leave the table. -/
@[grind] def Dead (t : OnceTable K) (slot : ℕ) : Prop :=
  t.cell slot = .failed ∨ ∃ f, t.Made slot f ∧ t.active f = false

@[grind] def Owned (owner : ℕ → K) (t : OnceTable K) (k : K) (slot : ℕ) : Prop :=
  slot < t.nextSlot ∧ owner slot = k

/-- While the slot is in the table, item `f` has a guard for it. -/
@[grind] def Guarded (t : OnceTable K) (k : K) (slot f : ℕ) : Prop :=
  f < t.nextItem ∧ (t.key k = some slot → ∃ g, t.guard f = some g ∧ g.slot = slot)

@[grind] def RoleOk (owner : ℕ → K) (t : OnceTable K) (u : ℕ) (k : K) : Role → Prop
  | .idle => True
  | .waiting slot => t.Owned owner k slot
  | .filling slot => t.Owned owner k slot ∧ t.cell slot = .filling u ∧ t.key k = some slot
  | .publishing slot f => t.Owned owner k slot ∧ t.cell slot = .filling u ∧ t.Guarded k slot f
  | .discarding slot => t.Owned owner k slot ∧ t.cell slot = .failed
  | .holding slot f => t.Owned owner k slot ∧ t.cell slot = .ready f
  | .retiring slot => t.Owned owner k slot ∧ ∃ f, t.cell slot = .ready f ∧ t.active f = false

@[grind] def CellOk (t : OnceTable K) (k : K) (slot : ℕ) : Cell → Prop
  | .empty => t.key k = some slot ∧ ∃ u, t.user u = some (k, .waiting slot)
  | .filling u => ∃ role, t.user u = some (k, role) ∧ role.fills? = some slot
  | .failed => t.key k = some slot → ∃ u, t.user u = some (k, .discarding slot)
  | .ready f => t.Guarded k slot f

structure Sound (owner : ℕ → K) (t : OnceTable K) : Prop where
  keys : ∀ k slot, t.key k = some slot → t.Owned owner k slot
  users : ∀ u k role, t.user u = some (k, role) → t.RoleOk owner u k role
  cells : ∀ slot, slot < t.nextSlot → t.CellOk (owner slot) slot (t.cell slot)
  items : ∀ f, t.active f = true → ∃ g, t.guard f = some g ∧ g.retired = false ∧ t.key g.key = some g.slot
  guards : ∀ f g, t.guard f = some g →
    t.Owned owner g.key g.slot ∧ t.Made g.slot f ∧ (g.retired = true → t.active f = false)

/-- A user with this role may leave its slot to the others. -/
def Free (t : OnceTable K) (k : K) : Role → Prop
  | .idle | .holding _ _ | .retiring _ => True
  | .waiting slot => t.cell slot ≠ .empty
  | .discarding slot => t.key k ≠ some slot
  | .filling _ | .publishing _ _ => False

variable {t : OnceTable K} {owner : ℕ → K} {u f slot : ℕ} {k : K}

theorem Made.unique {f' : ℕ} (hf : t.Made slot f) (hf' : t.Made slot f') : f = f' := by
  grind

/-! ### Users -/

/-- What a role says does not depend on the other users. -/
theorem roleOk_assign {u' : ℕ} {o : Option (K × Role)} {role : Role} :
    RoleOk owner (t.assign u' o) u k role ↔ RoleOk owner t u k role := by
  cases role <;> rfl

theorem Made.assign {o : Option (K × Role)} (h : t.Made slot f)
    (hu : ∀ k slot f, t.user u ≠ some (k, .publishing slot f)) : (t.assign u o).Made slot f := by
  unfold OnceTable.assign
  grind

/-- A cell keeps a user of the right kind, unless its last one moves on. -/
theorem CellOk.assign {k' : K} {c : Cell} {role : Role} {o : Option (K × Role)}
    (h : t.CellOk k slot c) (hu : t.user u = some (k', role))
    (hempty : c = .empty → role ≠ .waiting slot)
    (hfill : role.fills? = some slot → ∃ role', o = some (k', role') ∧ role'.fills? = some slot)
    (hfailed : c = .failed → t.key k = some slot → role ≠ .discarding slot) :
    (t.assign u o).CellOk k slot c := by
  unfold OnceTable.assign
  cases c with
  | empty =>
    obtain ⟨hk, w, hw⟩ := h
    have hne : w ≠ u := by grind
    exact ⟨hk, w, by simp [Function.update_of_ne hne, hw]⟩
  | filling w =>
    obtain ⟨role₁, hw, hrole₁⟩ := h
    by_cases hwu : w = u
    · subst hwu
      obtain ⟨rfl, rfl⟩ : k' = k ∧ role = role₁ := by grind
      obtain ⟨role', ho, hrole'⟩ := hfill hrole₁
      exact ⟨role', by simp [ho], hrole'⟩
    · exact ⟨role₁, by simp [Function.update_of_ne hwu, hw], hrole₁⟩
  | failed =>
    intro hk
    obtain ⟨w, hw⟩ := h hk
    have hne : w ≠ u := by grind
    exact ⟨w, by simp [Function.update_of_ne hne, hw]⟩
  | ready f => exact h

namespace Sound

/-- A user that owes nothing to its slot moves on or leaves. -/
theorem assign (h : Sound owner t) {role : Role} (hu : t.user u = some (k, role)) (hfree : t.Free k role)
    (next : Option Role) (hnext : ∀ role', next = some role' → t.RoleOk owner u k role') :
    Sound owner (t.assign u (next.map (k, ·))) := by
  obtain ⟨hkeys, husers, hcells, hitems, hguards⟩ := h
  have hrole := husers u k role hu
  refine ⟨hkeys, fun u' k' role' hu' => ?_, fun slot hslot => ?_, hitems, fun f g hg => ?_⟩
  · rw [roleOk_assign]
    simp only [OnceTable.assign, Function.update_apply] at hu'
    cases next <;> grind
  · apply (hcells slot hslot).assign hu
    · rintro hc rfl
      exact hfree hc
    · cases role <;> simp [Role.fills?] <;> exact hfree.elim
    · rintro - hk rfl
      obtain ⟨⟨-, howner⟩, -⟩ := hrole
      exact hfree (howner ▸ hk)
  · obtain ⟨hown, hmade, hretired⟩ := hguards f g hg
    refine ⟨hown, hmade.assign fun k' slot' f' hpub => ?_, hretired⟩
    rw [hu] at hpub
    cases hpub
    exact hfree

/-- A new user. -/
theorem arrive (h : Sound owner t) (hu : t.user u = none) : Sound owner (t.assign u (some (k, .idle))) := by
  obtain ⟨hkeys, husers, hcells, hitems, hguards⟩ := h
  have hkept : ∀ w x, t.user w = some x → (t.assign u (some (k, .idle))).user w = some x := by
    intro w x hw
    have hne : w ≠ u := by
      rintro rfl
      rw [hu] at hw
      cases hw
    simp only [OnceTable.assign, Function.update_of_ne hne, hw]
  refine ⟨hkeys, fun u' k' role hu' => ?_, fun slot hslot => ?_, hitems, fun f g hg => ?_⟩
  · rw [roleOk_assign]
    simp only [OnceTable.assign, Function.update_apply] at hu'
    split at hu'
    · cases hu'
      trivial
    · exact husers u' k' role hu'
  · have hold := hcells slot hslot
    change CellOk _ _ _ (t.cell slot)
    cases hc : t.cell slot with
    | empty =>
      rw [hc] at hold
      obtain ⟨hk, w, hw⟩ := hold
      exact ⟨hk, w, hkept w _ hw⟩
    | filling w =>
      rw [hc] at hold
      obtain ⟨role, hw, hrole⟩ := hold
      exact ⟨role, hkept w _ hw, hrole⟩
    | failed =>
      rw [hc] at hold
      intro hk
      obtain ⟨w, hw⟩ := hold hk
      exact ⟨w, hkept w _ hw⟩
    | ready f =>
      rw [hc] at hold
      exact hold
  · obtain ⟨hown, hmade, hretired⟩ := hguards f g hg
    exact ⟨hown, hmade.assign (by simp [hu]), hretired⟩

theorem insert [DecidableEq K] (h : Sound owner t) (hu : t.user u = some (k, .idle)) (hk : t.key k = none) :
    Sound (Function.update owner t.nextSlot k) (t.insert u k) := by
  obtain ⟨hkeys, husers, hcells, hitems, hguards⟩ := h
  unfold OnceTable.insert
  refine ⟨by grind, fun u' k' role' hu' => ?_, fun slot' hslot => ?_, by grind, fun f g hg => ?_⟩
  · have hold := husers u' k' role'
    cases role' <;> grind
  · by_cases hs : slot' = t.nextSlot
    · subst hs
      simp only [Function.update_self]
      exact ⟨by simp, u, by simp⟩
    · have hlt : slot' < t.nextSlot := by grind
      have hold := (hcells slot' hlt).assign (o := some (k, .waiting t.nextSlot)) hu (by simp) (by grind) (by simp)
      clear hguards hitems husers
      simp only [OnceTable.assign, Function.update_of_ne hs] at hold ⊢
      cases hc : t.cell slot' <;> grind
  · obtain ⟨hown, hmade, hretired⟩ := hguards f g hg
    exact ⟨by grind, by grind, hretired⟩

/-! ### Cells -/

theorem claim (h : Sound owner t) (hu : t.user u = some (k, .waiting slot)) (hc : t.cell slot = .empty) :
    Sound owner (t.claim u k slot) := by
  obtain ⟨hkeys, husers, hcells, hitems, hguards⟩ := h
  have howned : t.Owned owner k slot := husers u k _ hu
  have hempty := hcells slot howned.1
  rw [hc] at hempty
  unfold OnceTable.claim
  refine ⟨hkeys, fun u' k' role' hu' => ?_, fun slot' hslot => ?_, hitems, fun f g hg => ?_⟩
  · have hold := husers u' k' role'
    cases role' <;> grind
  · by_cases hs : slot' = slot
    · subst hs
      simp only [Function.update_self]
      exact ⟨.filling slot', by simp [howned.2], rfl⟩
    · simp only [Function.update_of_ne hs]
      exact (hcells slot' hslot).assign hu (by simp; grind) (by grind) (by simp)
  · obtain ⟨hown, hmade, hretired⟩ := hguards f g hg
    exact ⟨hown, by grind, hretired⟩

theorem item_lt (h : Sound owner t) (hlt : slot < t.nextSlot) (hc : t.cell slot = .ready f) : f < t.nextItem := by
  have hcell := h.cells slot hlt
  rw [hc] at hcell
  exact hcell.1

theorem guard_lt (h : Sound owner t) {g : Guard K} (hg : t.guard f = some g) : f < t.nextItem := by
  obtain ⟨⟨hlt, howner⟩, hmade, -⟩ := h.guards f g hg
  rcases hmade with hc | ⟨u, k, -, hu⟩
  · exact h.item_lt hlt hc
  · exact (h.users u k _ hu).2.2.1

theorem make (h : Sound owner t) (hu : t.user u = some (k, .filling slot)) : Sound owner (t.make u k slot) := by
  have hlt := @h.guard_lt
  obtain ⟨hkeys, husers, hcells, hitems, hguards⟩ := h
  have hrole := husers u k _ hu
  unfold OnceTable.make
  refine ⟨hkeys, fun u' k' role' hu' => ?_, fun slot' hslot => ?_, fun f hf => ?_, fun f g hg => ?_⟩
  · have hold := husers u' k' role'
    cases role' <;> grind
  · have hold := (hcells slot' hslot).assign (o := some (k, .publishing slot t.nextItem)) hu
      (by simp) (by grind) (by simp)
    clear hguards hitems husers
    simp only [OnceTable.assign] at hold ⊢
    cases hc : t.cell slot' <;> grind
  · by_cases hn : f = t.nextItem
    · subst hn
      exact ⟨⟨k, slot, false⟩, by simp, rfl, hrole.2.2⟩
    · simp only [Function.update_of_ne hn] at hf ⊢
      exact hitems f hf
  · have hold := hguards f
    grind

theorem publish (h : Sound owner t) (hu : t.user u = some (k, .publishing slot f)) :
    Sound owner (t.publish u k slot f) := by
  obtain ⟨hkeys, husers, hcells, hitems, hguards⟩ := h
  have hrole := husers u k _ hu
  unfold OnceTable.publish
  refine ⟨hkeys, fun u' k' role' hu' => ?_, fun slot' hslot => ?_, hitems, fun f g hg => ?_⟩
  · have hold := husers u' k' role'
    cases role' <;> grind
  · by_cases hs : slot' = slot
    · subst hs
      simp only [Function.update_self]
      grind
    · simp only [Function.update_of_ne hs]
      exact (hcells slot' hslot).assign hu (by simp) (by grind) (by simp)
  · obtain ⟨hown, hmade, hretired⟩ := hguards f g hg
    exact ⟨hown, by grind, hretired⟩

theorem fail (h : Sound owner t) (hu : t.user u = some (k, .filling slot)) : Sound owner (t.fail u k slot) := by
  obtain ⟨hkeys, husers, hcells, hitems, hguards⟩ := h
  have hrole := husers u k _ hu
  unfold OnceTable.fail
  refine ⟨hkeys, fun u' k' role' hu' => ?_, fun slot' hslot => ?_, hitems, fun f g hg => ?_⟩
  · have hold := husers u' k' role'
    cases role' <;> grind
  · by_cases hs : slot' = slot
    · subst hs
      simp only [Function.update_self]
      exact fun _ => ⟨u, by simp [hrole.1.2]⟩
    · simp only [Function.update_of_ne hs]
      exact (hcells slot' hslot).assign hu (by simp) (by grind) (by simp)
  · obtain ⟨hown, hmade, hretired⟩ := hguards f g hg
    exact ⟨hown, by grind, hretired⟩

/-! ### Removal -/

theorem remove [DecidableEq K] (h : Sound owner t) (hdead : t.Dead slot) : Sound owner (t.remove k slot) := by
  unfold OnceTable.remove
  split
  case isFalse => exact h
  case isTrue hk =>
    have hunique := @Made.unique K t
    obtain ⟨hkeys, husers, hcells, hitems, hguards⟩ := h
    refine ⟨by grind, fun u k' role hu => ?_, fun slot' hslot => ?_, by grind, by grind⟩
    · have hold := husers u k' role hu
      clear hcells hguards hitems
      cases role <;> grind
    · have hold := hcells slot' hslot
      clear hcells hguards hitems
      cases hc : t.cell slot' <;> grind

theorem deactivate (h : Sound owner t) (f : ℕ) : Sound owner (t.deactivate f) := by
  obtain ⟨hkeys, husers, hcells, hitems, hguards⟩ := h
  unfold OnceTable.deactivate
  refine ⟨hkeys, fun u k role hu => ?_, fun slot hslot => ?_, by grind, fun f' g hg => ?_⟩
  · have hold := husers u k role hu
    cases role <;> grind
  · have hold := hcells slot hslot
    cases hc : t.cell slot <;> grind
  · obtain ⟨hown, hmade, hretired⟩ := hguards f' g hg
    exact ⟨hown, hmade, by grind⟩

/-- A guard retires behind its item, and goes when its slot has left the table. -/
theorem setGuard (h : Sound owner t) {g : Guard K} {o : Option (Guard K)} (hg : t.guard f = some g)
    (hf : t.active f = false) (ho : ∀ g', o = some g' → g'.key = g.key ∧ g'.slot = g.slot)
    (hgone : o = none → t.key g.key ≠ some g.slot) : Sound owner (t.setGuard f o) := by
  obtain ⟨hkeys, husers, hcells, hitems, hguards⟩ := h
  have hkept : ∀ k slot f', t.Guarded k slot f' → (t.setGuard f o).Guarded k slot f' := by
    intro k slot f' ⟨hlt, hk⟩
    refine ⟨hlt, fun hkey => ?_⟩
    obtain ⟨g', hg', rfl⟩ := hk hkey
    unfold OnceTable.setGuard at hkey ⊢
    by_cases hff : f' = f
    · subst hff
      cases o with
      | none => grind
      | some g₁ => exact ⟨g₁, by simp, by grind⟩
    · exact ⟨g', by simp [Function.update_of_ne hff, hg'], rfl⟩
  refine ⟨hkeys, fun u k role hu => ?_, fun slot hslot => ?_, ?_, ?_⟩
  · have hold := husers u k role hu
    unfold OnceTable.setGuard at hkept ⊢
    cases role <;> grind
  · have hold := hcells slot hslot
    unfold OnceTable.setGuard at hkept ⊢
    cases hc : t.cell slot <;> grind
  · unfold OnceTable.setGuard
    grind
  · unfold OnceTable.setGuard
    grind

/-! ### What the invariant gives -/

/-- Two active items of one key are one. -/
theorem active_unique (h : Sound owner t) {f' : ℕ} {g g' : Guard K} (hf : t.active f = true)
    (hf' : t.active f' = true) (hg : t.guard f = some g) (hg' : t.guard f' = some g') (hk : g.key = g'.key) :
    f = f' := by
  obtain ⟨g₁, hg₁, -, hkey⟩ := h.items f hf
  obtain ⟨g₂, hg₂, -, hkey'⟩ := h.items f' hf'
  obtain rfl : g = g₁ := Option.some.inj (hg.symm.trans hg₁)
  obtain rfl : g' = g₂ := Option.some.inj (hg'.symm.trans hg₂)
  have hslot : g.slot = g'.slot := by
    rw [hk, hkey'] at hkey
    exact (Option.some.inj hkey).symm
  have hmade := (h.guards f g hg).2.1
  have hmade' := (h.guards f' g' hg').2.1
  rw [← hslot] at hmade'
  exact hmade.unique hmade'

/-- Somebody will remove a slot that is in the table. -/
theorem responsible (h : Sound owner t) (hk : t.key k = some slot) :
    (∃ u role, t.user u = some (k, role) ∧ role.Owes slot) ∨
      ∃ f g, t.guard f = some g ∧ g.key = k ∧ g.slot = slot ∧ t.cell slot = .ready f := by
  obtain ⟨hlt, rfl⟩ := h.keys k slot hk
  have hcell := h.cells slot hlt
  cases hc : t.cell slot with
  | empty =>
    rw [hc] at hcell
    obtain ⟨-, u, hu⟩ := hcell
    exact .inl ⟨u, _, hu, .inl rfl⟩
  | filling u =>
    rw [hc] at hcell
    obtain ⟨role, hu, hrole⟩ := hcell
    exact .inl ⟨u, role, hu, .inr (.inl hrole)⟩
  | failed =>
    rw [hc] at hcell
    obtain ⟨u, hu⟩ := hcell hk
    exact .inl ⟨u, _, hu, .inr (.inr rfl)⟩
  | ready f =>
    rw [hc] at hcell
    obtain ⟨g, hg, hslot⟩ := hcell.2 hk
    refine .inr ⟨f, g, hg, ?_, hslot, rfl⟩
    rw [← (h.guards f g hg).1.2, hslot]

/-- A user that holds a slot holds one of its own key. -/
theorem owned (h : Sound owner t) {role : Role} (hu : t.user u = some (k, role)) (hslot : role.slot? = some slot) :
    t.Owned owner k slot := by
  have hrole := h.users u k role hu
  cases role <;> simp only [Role.slot?, reduceCtorEq, Option.some.injEq] at hslot <;> subst hslot
  · exact hrole
  all_goals exact hrole.1

end Sound

/-- Nobody uses the table yet. -/
theorem sound_empty (owner : ℕ → K) (hkey : ∀ k, t.key k = none) (huser : ∀ u, t.user u = none)
    (hguard : ∀ f, t.guard f = none) (hactive : ∀ f, t.active f = false) (hnext : t.nextSlot = 0) :
    Sound owner t where
  keys k slot hk := by simp [hkey] at hk
  users u k role hu := by simp [huser] at hu
  cells slot hslot := by omega
  items f hf := by simp [hactive] at hf
  guards f g hg := by simp [hguard] at hg

end OnceTable

/-! ### Tokens that are spent once -/

/-- A token is live, or held by one party, or spent. -/
structure OneShot {P : Type} (live : ℕ → Prop) (held : P → ℕ → Prop) (spent : ℕ → ℕ) : Prop where
  free : ∀ f, live f → spent f = 0 ∧ ∀ p, ¬held p f
  pending : ∀ f p, held p f → spent f = 0
  unique : ∀ f p q, held p f → held q f → p = q
  once : ∀ f, spent f ≤ 1

/-- A step of party `mover`, which can take a live token and spend the one it holds. -/
theorem OneShot.step {P : Type} {live live' : ℕ → Prop} {held held' : P → ℕ → Prop} {spent spent' : ℕ → ℕ}
    (h : OneShot live held spent) (mover : P) (hlive : ∀ f, live' f → live f)
    (hheld : ∀ p f, held' p f → held p f ∨ (p = mover ∧ live f ∧ ¬live' f))
    (hspent : ∀ f, spent' f = spent f ∨ (spent' f = spent f + 1 ∧ held mover f ∧ ¬held' mover f)) :
    OneShot live' held' spent' := by
  refine ⟨fun f hf => ⟨?_, fun p hp => ?_⟩, fun f p hp => ?_, fun f p q hp hq => ?_, fun f => ?_⟩
  · obtain ⟨hzero, hfree⟩ := h.free f (hlive f hf)
    rcases hspent f with heq | ⟨-, hmover, -⟩
    · exact heq.trans hzero
    · exact absurd hmover (hfree mover)
  · rcases hheld p f hp with hold | ⟨-, -, hnot⟩
    · exact (h.free f (hlive f hf)).2 p hold
    · exact hnot hf
  · rcases hspent f with heq | ⟨-, hmover, hnot⟩
    · rcases hheld p f hp with hold | ⟨-, hl, -⟩
      · exact heq.trans (h.pending f p hold)
      · exact heq.trans (h.free f hl).1
    · rcases hheld p f hp with hold | ⟨-, hl, -⟩
      · rw [h.unique f p mover hold hmover] at hp
        exact absurd hp hnot
      · exact absurd hmover ((h.free f hl).2 mover)
  · rcases hheld p f hp with hp | ⟨rfl, hl, -⟩
    · rcases hheld q f hq with hq | ⟨rfl, hl, -⟩
      · exact h.unique f p q hp hq
      · exact absurd hp ((h.free f hl).2 p)
    · rcases hheld q f hq with hq | ⟨rfl, -, -⟩
      · exact absurd hq ((h.free f hl).2 q)
      · rfl
  · have hle := h.once f
    rcases hspent f with heq | ⟨heq, hmover, -⟩
    · omega
    · have hzero := h.pending f mover hmover
      omega

end Lib
