import TableAudit.Session.Basic

/-!
# What was seen of a session

Someone who watches a session tells its checks apart by the order in which they came in sight, and
remembers the columns that were mentioned.
-/

namespace TableAudit

/-- What was seen so far. -/
structure SeenSession where
  session : Session
  columnIds : List String
  checks : List CachedCheck
deriving Repr

namespace SeenSession

/-- Nothing was seen yet. -/
def start : SeenSession := ⟨.fresh, [], []⟩

/-- A check comes in sight. -/
def see (s : SeenSession) (c : CachedCheck) : SeenSession :=
  if s.checks.any (·.serial = c.serial) then s else { s with checks := s.checks ++ [c] }

/-- A column is mentioned. -/
def mention (s : SeenSession) (columnId : String) : SeenSession :=
  if s.columnIds.contains columnId then s else { s with columnIds := s.columnIds ++ [columnId] }

/-- The place of a check among those that came in sight. -/
def placeOf (s : SeenSession) (c : CachedCheck) : Nat :=
  s.checks.findIdx (·.serial = c.serial)

/-- The checks that are kept for the columns mentioned come in sight. -/
def seeKept (s : SeenSession) : SeenSession :=
  (s.columnIds.filterMap s.session.check?).foldl see s

/-- The columns that were mentioned, with the place of the check that is kept for each. -/
def kept (s : SeenSession) : List (String × Option Nat) :=
  s.columnIds.map fun id => (id, (s.session.check? id).map s.placeOf)

end SeenSession

end TableAudit
