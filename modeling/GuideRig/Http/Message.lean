/-
# GuideRig.Http.Message -- requests and responses

A request is what a client hands to a connection, a response what it takes from one. Header fields
keep the order in which they are written. A status is a number of three digits; the usual ones have
a name, which is only for people to read.
-/

import GuideRig.Text.Ascii

namespace GuideRig

/-- What a request asks to be done. -/
structure Method where
  name : String
  deriving DecidableEq, Repr

namespace Method

/-- To be sent what is at the target. -/
def get : Method := ⟨"GET"⟩

/-- To have the target take what is sent. -/
def post : Method := ⟨"POST"⟩

end Method

/-- A header field. -/
structure HeaderField where
  name : String
  value : Bytes
  deriving DecidableEq, Repr

/-- A request. -/
structure Request where
  method : Method
  target : Bytes
  headers : List HeaderField
  body : Bytes
  deriving DecidableEq, Repr

/-- A response. -/
structure Response where
  status : Nat
  headers : List HeaderField
  body : Bytes
  deriving DecidableEq, Repr

namespace Status

/-- The names of the usual statuses. -/
def names : List (Nat × String) :=
  [(100, "Continue"), (101, "Switching Protocols"), (102, "Processing"), (200, "OK"),
   (201, "Created"), (202, "Accepted"), (203, "Non Authoritative Information"),
   (204, "No Content"), (205, "Reset Content"), (206, "Partial Content"), (207, "Multi-Status"),
   (208, "Already Reported"), (226, "IM Used"), (300, "Multiple Choices"),
   (301, "Moved Permanently"), (302, "Found"), (303, "See Other"), (304, "Not Modified"),
   (305, "Use Proxy"), (307, "Temporary Redirect"), (308, "Permanent Redirect"),
   (400, "Bad Request"), (401, "Unauthorized"), (402, "Payment Required"), (403, "Forbidden"),
   (404, "Not Found"), (405, "Method Not Allowed"), (406, "Not Acceptable"),
   (407, "Proxy Authentication Required"), (408, "Request Timeout"), (409, "Conflict"),
   (410, "Gone"), (411, "Length Required"), (412, "Precondition Failed"),
   (413, "Payload Too Large"), (414, "URI Too Long"), (415, "Unsupported Media Type"),
   (416, "Range Not Satisfiable"), (417, "Expectation Failed"), (418, "I'm a teapot"),
   (421, "Misdirected Request"), (422, "Unprocessable Entity"), (423, "Locked"),
   (424, "Failed Dependency"), (425, "Too Early"), (426, "Upgrade Required"),
   (428, "Precondition Required"), (429, "Too Many Requests"),
   (431, "Request Header Fields Too Large"), (451, "Unavailable For Legal Reasons"),
   (500, "Internal Server Error"), (501, "Not Implemented"), (502, "Bad Gateway"),
   (503, "Service Unavailable"), (504, "Gateway Timeout"), (505, "HTTP Version Not Supported"),
   (506, "Variant Also Negotiates"), (507, "Insufficient Storage"), (508, "Loop Detected"),
   (510, "Not Extended"), (511, "Network Authentication Required")]

/-- A status with its name. -/
def text (status : Nat) : String :=
  toString status ++ " " ++ (names.lookup status).getD "<unknown status code>"

/-- Whether a status reports success. -/
def isSuccess (status : Nat) : Bool := 200 ≤ status && status < 300

/-- Whether a status only informs that the response is still to come. -/
def isInterim (status : Nat) : Bool := 100 ≤ status && status < 200 && status != 101

/-- Whether a response of a status never has a body. -/
def isBare (status : Nat) : Bool := status == 101 || status == 204 || status == 304

end Status

/-! ## What is wrong with messages -/

/-- Why a request cannot be written. -/
inductive RequestFault where
  /-- A header value holds a byte that may not stand in one. -/
  | badHeaderValue
  /-- The target is too long. -/
  | targetTooLong
  deriving DecidableEq, Repr

/-- The fault in words. -/
def RequestFault.message : RequestFault → String
  | badHeaderValue => "failed to parse header value"
  | targetTooLong => "uri too long"

/-- The name of the fault. -/
def RequestFault.name : RequestFault → String
  | badHeaderValue => "InvalidHeaderValue"
  | targetTooLong => "InvalidUri(TooLong)"

/-- Why a response cannot be read. -/
inductive ResponseFault where
  /-- The connection ends before the head of the response does. -/
  | incomplete
  /-- The connection ends before the body does, or the body is badly framed. -/
  | badBody
  | badVersion
  | badStatus
  | badHeader
  | badLength
  | tooLarge
  /-- The old version of the protocol with a transfer coding. -/
  | unexpectedCoding
  deriving DecidableEq, Repr

/-- The fault in words. -/
def ResponseFault.message : ResponseFault → String
  | incomplete => "connection closed before message completed"
  | badBody => "error reading a body from connection"
  | badVersion => "invalid HTTP version parsed"
  | badStatus => "invalid HTTP status-code parsed"
  | badHeader => "invalid HTTP header parsed"
  | badLength => "invalid content-length parsed"
  | tooLarge => "message head is too large"
  | unexpectedCoding => "unexpected transfer-encoding parsed"

/-- The name of the fault. -/
def ResponseFault.name : ResponseFault → String
  | incomplete => "IncompleteMessage"
  | badBody => "Body"
  | badVersion => "Parse(Version)"
  | badStatus => "Parse(Status)"
  | badHeader => "Parse(Header(Token))"
  | badLength => "Parse(Header(ContentLengthInvalid))"
  | tooLarge => "Parse(TooLarge)"
  | unexpectedCoding => "Parse(Header(TransferEncodingUnexpected))"

end GuideRig
