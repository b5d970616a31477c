import Mathlib.Data.List.Basic

/-!
# A packet filter table with one chain of its own

The main chain of a table holds jumps to the own chain among other rules. A
command that fails leaves the table as it was. What a command does is said by
the jumps that are in the main chain afterwards and by the own chain.
-/

namespace Lib

/-- `J` names a jump to the own chain, `O` another rule of the main chain, `R` a rule of the
own chain, which is `none` when the table has no such chain. -/
structure FilterTable (J O R : Type) where
  main : List (J ⊕ O)
  chain : Option (List R)

namespace FilterTable

variable {J O R : Type}

/-- The jumps to the own chain, first rule first. -/
def jumps (t : FilterTable J O R) : List J := t.main.filterMap Sum.getLeft?

/-- `-N`: fails when the chain is there. -/
def newChain (t : FilterTable J O R) : FilterTable J O R := { t with chain := some (t.chain.getD []) }

/-- `-I` of a jump: fails without the chain. -/
def insertJump (j : J) (t : FilterTable J O R) : FilterTable J O R :=
  if t.chain.isSome then { t with main := .inl j :: t.main } else t

/-- `-D` of a jump: takes out the first one that matches. -/
def deleteJump [DecidableEq J] (j : J) (t : FilterTable J O R) : FilterTable J O R :=
  { t with main := t.main.eraseP fun rule => rule.getLeft? = some j }

/-- `-A` of some rules to the chain: fails without the chain. -/
def append (rules : List R) (t : FilterTable J O R) : FilterTable J O R :=
  { t with chain := t.chain.map (· ++ rules) }

/-- `-F` of the chain. -/
def flush (t : FilterTable J O R) : FilterTable J O R := { t with chain := t.chain.map fun _ => [] }

/-- `-X`: fails when the chain has rules or a jump refers to it. -/
def deleteChain (t : FilterTable J O R) : FilterTable J O R :=
  if t.jumps = [] ∧ t.chain.all List.isEmpty then { t with chain := none } else t

/-- Nothing of the own chain is left. -/
def Bare (t : FilterTable J O R) : Prop := t.jumps = [] ∧ t.chain = none

@[simp] theorem jumps_newChain (t : FilterTable J O R) : t.newChain.jumps = t.jumps := rfl

@[simp] theorem chain_newChain (t : FilterTable J O R) : t.newChain.chain = some (t.chain.getD []) := rfl

@[simp] theorem jumps_append (rules : List R) (t : FilterTable J O R) : (t.append rules).jumps = t.jumps := rfl

@[simp] theorem chain_append (rules : List R) (t : FilterTable J O R) :
    (t.append rules).chain = t.chain.map (· ++ rules) := rfl

@[simp] theorem jumps_flush (t : FilterTable J O R) : t.flush.jumps = t.jumps := rfl

@[simp] theorem chain_flush (t : FilterTable J O R) : t.flush.chain = t.chain.map fun _ => [] := rfl

@[simp] theorem chain_deleteJump [DecidableEq J] (j : J) (t : FilterTable J O R) :
    (t.deleteJump j).chain = t.chain := rfl

@[simp] theorem jumps_deleteJump [DecidableEq J] (j : J) (t : FilterTable J O R) :
    (t.deleteJump j).jumps = t.jumps.erase j := by
  obtain ⟨main, chain⟩ := t
  simp only [deleteJump, jumps]
  induction main with
  | nil => rfl
  | cons rule main ih =>
    cases rule with
    | inl k =>
      by_cases hk : k = j
      · simp [hk]
      · simp [hk, ih]
    | inr o => simpa [List.filterMap_cons] using ih

@[simp] theorem chain_insertJump (j : J) (t : FilterTable J O R) : (t.insertJump j).chain = t.chain := by
  unfold insertJump
  split <;> rfl

theorem jumps_insertJump {t : FilterTable J O R} (h : t.chain.isSome = true) (j : J) :
    (t.insertJump j).jumps = j :: t.jumps := by
  rw [insertJump, if_pos h]
  rfl

@[simp] theorem jumps_deleteChain (t : FilterTable J O R) : t.deleteChain.jumps = t.jumps := by
  unfold deleteChain
  split <;> rfl

/-- Behind a flush the chain goes away unless a jump is left. -/
theorem chain_deleteChain_flush (t : FilterTable J O R) :
    t.flush.deleteChain.chain = if t.jumps = [] then none else t.chain.map fun _ => [] := by
  have hempty : (t.chain.map fun _ => ([] : List R)).all List.isEmpty = true := by
    cases t.chain <;> rfl
  by_cases hjumps : t.jumps = []
  · simp [deleteChain, hjumps, hempty]
  · simp [deleteChain, hjumps]

end FilterTable

end Lib
