import TableAudit.Http.Url
import TableAudit.Json.Document

/-!
# Requests and responses

A request has a method, an address and maybe a JSON body; a response has a status and a body of
bytes. Only a status from 200 to 299 is a success. What a failed status is called depends on its
hundreds, and many have a usual phrase.
-/

namespace TableAudit.Http

/-- A request. Parameters that are given apart replace those in the address. -/
structure Request where
  method : String
  url : String
  parameters : Option (List (String × String))
  authorization : Option String
  body : Option Value
deriving Repr

/-- The address of a request with its parameters. -/
def Request.address (r : Request) : Address :=
  let a := Address.ofText r.url
  match r.parameters with
  | none => a
  | some ps => { a with query := ps }

/-- A response. -/
structure Response where
  status : Nat
  body : List UInt8
deriving Repr

/-- What answers a request: a response, or the message of a failure on the way. -/
abbrev Reply := Except String Response

/-- The message where no further response is laid down. -/
def exhaustedText : String := "script exhausted"

/-- The usual phrases of statuses. -/
def phrases : List (Nat × String) :=
  [(100, "Continue"), (101, "Switching Protocols"), (102, "Processing"), (103, "Early Hints"),
    (200, "OK"), (201, "Created"), (202, "Accepted"), (203, "Non-Authoritative Information"),
    (204, "No Content"), (205, "Reset Content"), (206, "Partial Content"), (207, "Multi-Status"),
    (208, "Already Reported"), (226, "IM Used"), (300, "Multiple Choices"),
    (301, "Moved Permanently"), (302, "Found"), (303, "See Other"), (304, "Not Modified"),
    (305, "Use Proxy"), (307, "Temporary Redirect"), (308, "Permanent Redirect"),
    (400, "Bad Request"), (401, "Unauthorized"), (402, "Payment Required"), (403, "Forbidden"),
    (404, "Not Found"), (405, "Method Not Allowed"), (406, "Not Acceptable"),
    (407, "Proxy Authentication Required"), (408, "Request Timeout"), (409, "Conflict"),
    (410, "Gone"), (411, "Length Required"), (412, "Precondition Failed"),
    (413, "Request Entity Too Large"), (414, "Request-URI Too Long"),
    (415, "Unsupported Media Type"), (416, "Requested Range Not Satisfiable"),
    (417, "Expectation Failed"), (418, "I'm a teapot"), (421, "Misdirected Request"),
    (422, "Unprocessable Entity"), (423, "Locked"), (424, "Failed Dependency"),
    (425, "Too Early"), (426, "Upgrade Required"), (428, "Precondition Required"),
    (429, "Too Many Requests"), (431, "Request Header Fields Too Large"),
    (451, "Unavailable For Legal Reasons"), (500, "Internal Server Error"),
    (501, "Not Implemented"), (502, "Bad Gateway"), (503, "Service Unavailable"),
    (504, "Gateway Timeout"), (505, "HTTP Version Not Supported"),
    (506, "Variant Also Negotiates"), (507, "Insufficient Storage"), (508, "Loop Detected"),
    (510, "Not Extended"), (511, "Network Authentication Required")]

/-- The usual phrase of a status. -/
def phrase (status : Nat) : String :=
  (phrases.lookup status).getD ""

/-- What a status that is no success is called. -/
def failureName (status : Nat) : String :=
  match status / 100 with
  | 1 => "Informational response"
  | 3 => "Redirect response"
  | 4 => "Client error"
  | 5 => "Server error"
  | _ => "Invalid status code"

namespace Response

/-- Whether the status is a success. -/
def isSuccess (r : Response) : Bool :=
  200 ≤ r.status && r.status < 300

/-- The wording for a status that is no success. -/
def failureText (r : Response) : String :=
  failureName r.status ++ " '" ++ toString r.status ++ " " ++ phrase r.status ++ "'"

/-- The wording for a status that is no success, with the address and where to read on. -/
def longFailureText (r : Response) (url : String) : String :=
  r.failureText ++ " for url '" ++ Address.usualText url ++ "'\nFor more information check: " ++
    "https://developer.mozilla.org/en-US/docs/Web/HTTP/Status/" ++ toString r.status

end Response

end TableAudit.Http
