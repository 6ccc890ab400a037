import TableAudit.Http.Message

/-!
# Requests as documents

A request spelled out, with the parts of its address.
-/

namespace TableAudit.Http

/-- The request as a document. -/
def Request.document (r : Request) : Value :=
  let a := r.address
  .object [("method", .text r.method), ("host", .text a.host), ("path", .text a.path),
    ("params", .list (a.query.map fun p => .list [.text p.1, .text p.2])),
    ("auth", .ofOption .text r.authorization), ("body", r.body.getD .null)]

end TableAudit.Http
