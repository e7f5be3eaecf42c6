import Catchup.Decimal.Shortest
import Catchup.Duration

/-! Timeouts and limits of a node, their defaults, and what makes them usable. -/

set_option autoImplicit false

namespace Catchup

structure Settings where
  /-- The time between two status checks. -/
  checkInterval : Nat := 3_000_000_000
  /-- How long a status check waits for answers. -/
  statusWindow : Nat := 5_000_000_000
  /-- How long a sync request may stay unanswered. -/
  requestTimeout : Nat := 5_000_000_000
  /-- How long the commit of an accepted extension may take. -/
  commitTimeout : Nat := 1_000_000_000
  /-- How many peers one status check asks; all of them if there is no limit. -/
  checkLimit : Option Nat := none
  banDuration : Nat := 1_800_000_000_000
  updateLimit : Nat := 10
  updateRate : Float := 50.0
  deriving BEq, Repr

inductive Settings.Flaw where
  | zero (field : String)
  | unusableRate (rate : Float)
  deriving BEq, Repr

namespace Settings

def Flaw.message : Flaw → String
  | .zero field => field ++ " must be greater than zero"
  | .unusableRate rate =>
    "max_ledger_updates_rate must be a positive number, got " ++ Decimal.text rate

def isDefault (settings : Settings) : Bool := settings == {}

/-- The fields in which zero is a flaw, in the order in which they are looked at. -/
def delays (settings : Settings) : List (String × Nat) :=
  [("sync_check_interval_ms", settings.checkInterval),
   ("sync_check_receive_status_timeout_ms", settings.statusWindow),
   ("sync_request_timeout_ms", settings.requestTimeout),
   ("ledger_update_timeout_ms", settings.commitTimeout)]

def usableRate (rate : Float) : Bool := rate.isFinite && 0 < rate

/-- The settings themselves if a node can run with them, otherwise their first flaw: a limit of zero
peers, a rate that is not a positive number, a delay of zero. -/
def validate (settings : Settings) : Except Flaw Settings :=
  if settings.checkLimit = some 0 then .error (.zero "sync_check_max_peers")
  else if !usableRate settings.updateRate then .error (.unusableRate settings.updateRate)
  else match settings.delays.find? fun delay => delay.2 == 0 with
  | some (field, _) => .error (.zero field)
  | none => .ok settings

end Settings

end Catchup
