import SourceChunking.Settings.Record

/-! # Sessions

A configuration is a cell that is known by its number: whoever has the number has the
configuration itself and sees every change of it. The shared configuration is such a
number, made when it is first asked for, and callers hold others, among which the
shared one may be. A service works on a cell of its own, to which the configuration
that it is opened with is copied. A refused step ends where it was refused, and what
it did before that is not taken back.
-/
namespace SourceChunking

structure Session where
  cells : List SettingsRecord
  sharedCell : Option Nat
  held : List Nat
  services : List Nat

inductive SettingsStep where
  | make (data : Value)
  | setShared (data : Value)
  | share (config : Nat)
  | resetShared
  | holdShared
  | assignShared (field : String) (v : Value)
  | assignHeld (config : Nat) (field : String) (v : Value)
  | openService (config : Option Nat)
  | assignService (service : Nat) (field : String) (v : Value)

namespace Session

def fresh : Session := ⟨[], none, [], []⟩

def record (s : Session) (cell : Nat) : SettingsRecord :=
  (s.cells[cell]?).getD (.ofSettings .standard)

/-- The shared record; the standard settings as long as there is none. -/
def sharedRecord (s : Session) : SettingsRecord :=
  match s.sharedCell with
  | some cell => s.record cell
  | none => .ofSettings .standard

def shared (s : Session) : Settings := s.sharedRecord.settings

/-- The record of a service, or the shared one if there is no such service. -/
def serviceRecord (s : Session) (i : Nat) : SettingsRecord :=
  match s.services[i]? with
  | some cell => s.record cell
  | none => s.sharedRecord

def service (s : Session) (i : Nat) : Settings := (s.serviceRecord i).settings

def allocate (s : Session) (r : SettingsRecord) : Session := { s with cells := s.cells ++ [r] }

def write (s : Session) (cell : Nat) (r : SettingsRecord) : Session :=
  { s with cells := s.cells.set cell r }

def share (s : Session) (cell : Nat) : Session := { s with sharedCell := some cell }

def hold (s : Session) (cell : Nat) : Session := { s with held := s.held ++ [cell] }

def serve (s : Session) (cell : Nat) : Session := { s with services := s.services ++ [cell] }

end Session

/-- What works on a session, up to a refusal. -/
abbrev SettingsAction := ExceptT (List Issue) (StateM Session)

namespace SettingsAction

def accept {α : Type} : Checked α → SettingsAction α
  | .ok a => pure a
  | .refused issues => throw issues

def store (r : SettingsRecord) : SettingsAction Nat := do
  let s ← get
  set (s.allocate r)
  pure s.cells.length

/-- The cell of the shared configuration, which is made if there is none. -/
def askShared : SettingsAction Nat := do
  match (← get).sharedCell with
  | some cell => pure cell
  | none => do
    let cell ← store (.ofSettings .standard)
    modify fun s => s.share cell
    pure cell

def copy (cell : Nat) : SettingsAction Nat := do store ((← get).record cell)

def assign (field : String) (v : Value) (cell : Nat) : SettingsAction Unit := do
  let r ← accept (((← get).record cell).assign field v)
  modify fun s => s.write cell r

def openOn (cell : Nat) : SettingsAction Unit := do
  let own ← copy cell
  modify fun s => s.serve own

/-- Goes on with a cell, if there is one. -/
def withCell (cell? : Session → Option Nat) (act : Nat → SettingsAction Unit) :
    SettingsAction Unit := do
  match cell? (← get) with
  | some cell => act cell
  | none => pure ()

end SettingsAction

namespace SettingsStep
open SettingsAction

def perform : SettingsStep → SettingsAction Unit
  | make data => do
    let c ← accept (Settings.read data)
    let cell ← store (.ofSettings c)
    modify fun s => s.hold cell
  | setShared data => do
    let c ← accept (Settings.readShared data)
    let cell ← store (.ofSettings c)
    modify fun s => s.share cell
  | share config => withCell (fun s => s.held[config]?) fun cell => modify fun s => s.share cell
  | resetShared => modify fun s => { s with sharedCell := none }
  | holdShared => do
    let cell ← askShared
    modify fun s => s.hold cell
  | assignShared field v => do assign field v (← askShared)
  | assignHeld config field v => withCell (fun s => s.held[config]?) (assign field v)
  | openService none => do openOn (← askShared)
  | openService (some config) => withCell (fun s => s.held[config]?) openOn
  | assignService i field v => withCell (fun s => s.services[i]?) (assign field v)

end SettingsStep

namespace Session

/-- What a step answers and the session it leaves behind, refused or not. -/
def apply (s : Session) (step : SettingsStep) : Except (List Issue) Unit × Session :=
  step.perform.run.run s

def after (s : Session) (step : SettingsStep) : Session := (s.apply step).2

end Session
end SourceChunking
