import Steward.Proofs.Supervision.Chronicle

set_option autoImplicit false

namespace Steward

structure Ledger (ι : Type) where
  roster : Table (Member ι) := .empty
  order : List String := []
  calls : List (Call ι) := []

namespace Ledger

variable {ι : Type}

def callAll (l : Ledger ι) (calls : List (Call ι)) : Ledger ι :=
  { l with calls := l.calls ++ calls }

def call (l : Ledger ι) (c : Call ι) : Ledger ι := l.callAll [c]

def enroll (l : Ledger ι) (m : Member ι) : Ledger ι := { l with roster := l.roster.insert m.name m }

def strike (l : Ledger ι) (name : String) : Ledger ι := { l with roster := l.roster.erase name }

def alter (l : Ledger ι) (name : String) (f : Member ι → Member ι) : Ledger ι :=
  { l with roster := l.roster.update name f }

def leave (l : Ledger ι) (name : String) : Ledger ι :=
  { l with order := l.order.filter (· ≠ name) }

def join (l : Ledger ι) (name : String) : Ledger ι := { l with order := l.order ++ [name] }

def clear (l : Ledger ι) : Ledger ι := { l with roster := .empty, order := [] }

@[simp] theorem roster_callAll (l : Ledger ι) (calls : List (Call ι)) :
    (l.callAll calls).roster = l.roster := rfl
@[simp] theorem calls_callAll (l : Ledger ι) (calls : List (Call ι)) :
    (l.callAll calls).calls = l.calls ++ calls := rfl

@[simp] theorem roster_call (l : Ledger ι) (c : Call ι) : (l.call c).roster = l.roster := rfl
@[simp] theorem order_call (l : Ledger ι) (c : Call ι) : (l.call c).order = l.order := rfl
@[simp] theorem calls_call (l : Ledger ι) (c : Call ι) : (l.call c).calls = l.calls ++ [c] := rfl

@[simp] theorem roster_enroll (l : Ledger ι) (m : Member ι) :
    (l.enroll m).roster = l.roster.insert m.name m := rfl
@[simp] theorem calls_enroll (l : Ledger ι) (m : Member ι) : (l.enroll m).calls = l.calls := rfl

@[simp] theorem roster_strike (l : Ledger ι) (name : String) :
    (l.strike name).roster = l.roster.erase name := rfl
@[simp] theorem calls_strike (l : Ledger ι) (name : String) : (l.strike name).calls = l.calls := rfl

@[simp] theorem roster_alter (l : Ledger ι) (name : String) (f : Member ι → Member ι) :
    (l.alter name f).roster = l.roster.update name f := rfl
@[simp] theorem order_alter (l : Ledger ι) (name : String) (f : Member ι → Member ι) :
    (l.alter name f).order = l.order := rfl
@[simp] theorem calls_alter (l : Ledger ι) (name : String) (f : Member ι → Member ι) :
    (l.alter name f).calls = l.calls := rfl

@[simp] theorem order_leave (l : Ledger ι) (name : String) :
    (l.leave name).order = l.order.filter (· ≠ name) := rfl

@[simp] theorem roster_join (l : Ledger ι) (name : String) : (l.join name).roster = l.roster := rfl
@[simp] theorem order_join (l : Ledger ι) (name : String) :
    (l.join name).order = l.order ++ [name] := rfl
@[simp] theorem calls_join (l : Ledger ι) (name : String) : (l.join name).calls = l.calls := rfl

theorem callAll_nil (l : Ledger ι) : l.callAll [] = l := by
  simp [callAll]

theorem callAll_callAll (l : Ledger ι) (front back : List (Call ι)) :
    (l.callAll front).callAll back = l.callAll (front ++ back) := by
  simp [callAll]

theorem call_call (l : Ledger ι) (a b : Call ι) : (l.call a).call b = l.callAll [a, b] := by
  simp [call, callAll]

def active? (l : Ledger ι) (name : String) : Option ι :=
  (l.roster.get? name).bind Member.active?

theorem active?_of_get? {l : Ledger ι} {name : String} {m : Member ι}
    (member : l.roster.get? name = some m) : l.active? name = m.active? := by
  simp [active?, member]

theorem get?_of_active? {l : Ledger ι} {name : String} {i : ι} (active : l.active? name = some i) :
    ∃ m, l.roster.get? name = some m ∧ m.isRunning = true ∧ m.instance? = some i := by
  obtain ⟨m, member, runs⟩ := Option.bind_eq_some_iff.mp active
  unfold Member.active? at runs
  split at runs
  · exact ⟨m, member, ‹_›, runs⟩
  · cases runs

@[simp] theorem active?_call (l : Ledger ι) (c : Call ι) (name : String) :
    (l.call c).active? name = l.active? name := rfl

@[simp] theorem active?_join (l : Ledger ι) (joined name : String) :
    (l.join joined).active? name = l.active? name := rfl

theorem active?_enroll (l : Ledger ι) (m : Member ι) (name : String) :
    (l.enroll m).active? name = if name = m.name then m.active? else l.active? name := by
  unfold active?
  rw [roster_enroll, Table.get?_insert]
  split <;> rfl

theorem active?_enroll_self (l : Ledger ι) (m : Member ι) :
    (l.enroll m).active? m.name = m.active? := by
  rw [active?_enroll, if_pos rfl]

theorem active?_strike (l : Ledger ι) (struck name : String) :
    (l.strike struck).active? name = if name = struck then none else l.active? name := by
  unfold active?
  rw [roster_strike, Table.get?_erase]
  split <;> rfl

theorem active?_alter (l : Ledger ι) (altered name : String) (f : Member ι → Member ι) :
    (l.alter altered f).active? name =
      if name = altered then ((l.roster.get? altered).map f).bind Member.active?
      else l.active? name := by
  unfold active?
  rw [roster_alter, Table.get?_update]
  split <;> rfl

theorem active?_start {l : Ledger ι} {name : String} {m : Member ι} {i : ι}
    (member : l.roster.get? name = some m) (live : m.instance? = some i) (other : String) :
    ((l.alter name fun m => { m with state := .running }).join name).active? other =
      if other = name then some i else l.active? other := by
  rw [active?_join, active?_alter, member]
  split
  · simp [Member.active?, Member.isRunning, live]
  · rfl

end Ledger

def House.ledger {ι ω : Type} (h : House ι (Chronicle ι ω)) : Ledger ι :=
  ⟨h.roster, h.order, h.stage.world.calls⟩

end Steward
