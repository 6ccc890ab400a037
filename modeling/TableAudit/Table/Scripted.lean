import TableAudit.Table.Reading

/-!
# Reading a scripted table

A table that serves pages in the order they are laid down, and empty ones after the last. Reading
its rows shows every question that is asked.
-/

namespace TableAudit

/-- A page to come, or the failure to serve it. -/
inductive ScriptedPage
  | page (p : Page)
  | failure (message : String)
deriving Repr

/-- The pages to come, and the visible records of the view. -/
structure ScriptedPages where
  pages : List ScriptedPage
  visible : List String
deriving Repr

namespace ScriptedPages

/-- The reply to a question, and what is left. -/
def reply (t : ScriptedPages) : TableCall → TableReply × ScriptedPages
  | .records _ _ =>
    match t.pages with
    | [] => (.page ⟨[], false, .null⟩, t)
    | .page p :: rest => (.page p, { t with pages := rest })
    | .failure message :: rest => (.failed (.failure message), { t with pages := rest })
  | .view id => (.view ⟨id, true⟩, t)
  | .visibleIds _ => (.visibleIds t.visible, t)
  | _ => (.failed (.fault .wrongKind), t)

end ScriptedPages

namespace Reading

/-- Go on against a scripted table for a number of questions: the rows, if all questions were
answered, and the questions. -/
def runFor (q : RowQuery) : Nat → ScriptedPages → Reading →
    Option (Except SourceError (List Row)) × List TableCall
  | 0, _, _ => (none, [])
  | fuel + 1, t, r =>
    let call := r.call q
    let (reply, t) := t.reply call
    match r.resume q reply with
    | .rows rows => (some (.ok rows), [call])
    | .failed e => (some (.error e), [call])
    | .ask r =>
      let (rows, calls) := runFor q fuel t r
      (rows, call :: calls)

/-- Read the rows of a scripted table. The page after the last one ends the paging, and a view
takes two questions. -/
def run (q : RowQuery) (t : ScriptedPages) :
    Option (Except SourceError (List Row)) × List TableCall :=
  runFor q (t.pages.length + 3) t start

end Reading

end TableAudit
