import TableAudit.Report.Basic

/-!
# Progress

Progress over the columns of a pass: how many are done and how many violations they had. A bar is
shown on a terminal only.
-/

namespace TableAudit

/-- How far a pass is. The bar's position is missing where no bar is shown. -/
structure Progress where
  done : Nat
  violations : Nat
  onTerminal : Bool
  bar : Option Nat
deriving DecidableEq, Repr

namespace Progress

/-- The beginning of a pass. -/
def start (onTerminal : Bool) : Progress :=
  ⟨0, 0, onTerminal, if onTerminal then some 0 else none⟩

/-- A column is done; violations count if it was validated. -/
def columnDone (p : Progress) (status : String) (violations : Nat) : Progress :=
  { p with
    done := p.done + 1
    violations := if status = ColumnStatus.validated.name then p.violations + violations
      else p.violations
    bar := p.bar.map (· + 1) }

/-- The end of a pass. -/
def close (p : Progress) : Progress :=
  { p with bar := none }

end Progress

end TableAudit
