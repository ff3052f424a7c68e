/-
# Framing and serializing a response

The pure half of the response step of `engine/src/connection.rs`: the `Connection` filter,
`ensure_framing` up to and after its one await, `reason_phrase` and `serialize_head`.
-/
import HelixRack.Handler

namespace HelixRack

/-! ## 1. Constants -/

def initialBufCapacity : Nat := 8 * 1024
def maxBufCapacity : Nat := 64 * 1024
def maxBodyCapacity : Nat := 10 * 1024 * 1024
def maxHeaders : Nat := 64
def spooledBodyChunkSize : Nat := 128 * 1024

def requestHeaderFieldsTooLarge : Bytes :=
  asBytes "HTTP/1.1 431 Request Header Fields Too Large\r\nConnection: close\r\n\r\n"

def payloadTooLargeResponse : Bytes :=
  asBytes "HTTP/1.1 413 Payload Too Large\r\nConnection: close\r\n\r\n"

def badRequestResponse : Bytes :=
  asBytes "HTTP/1.1 400 Bad Request\r\nConnection: close\r\n\r\n"

/-! ## 2. The header list -/

/-- The `retain` in `handle`: whatever the handler said about `Connection` goes. -/
def stripConnection (headers : List (String × String)) : List (String × String) :=
  headers.filter fun (name, _) => !eqIgnoreAsciiCase (trim name) "connection"

/-- `has_framing` in `ensure_framing`. -/
def hasFraming (headers : List (String × String)) : Bool :=
  headers.any fun (name, _) =>
    let name := trim name
    eqIgnoreAsciiCase name "content-length" || eqIgnoreAsciiCase name "transfer-encoding"

namespace HandlerResponse

def pushHeader (response : HandlerResponse) (name value : String) : HandlerResponse :=
  { response with headers := response.headers ++ [(name, value)] }

def pushContentLength (response : HandlerResponse) (bodyLen : Nat) : HandlerResponse :=
  response.pushHeader "Content-Length" (toString bodyLen)

end HandlerResponse

/-- Where `ensure_framing` stands after its synchronous part. -/
inductive Framing where
  /-- `Ok(())`: the response is framed. -/
  | framed (response : HandlerResponse)
  /-- The file was duplicated, and its `metadata()` is awaited. -/
  | awaitMetadata (file : File)
  /-- `try_clone` failed. -/
  | failed
  deriving DecidableEq, Repr

def ensureFraming (response : HandlerResponse) : Framing :=
  if hasFraming response.headers then .framed response
  else match response.body with
    | .inMemory bytes => .framed (response.pushContentLength bytes.length)
    | .spooled file => if .cloneForLength ∈ file.faults then .failed else .awaitMetadata file

/-! ## 3. `serialize_head` -/

def reasonPhrase (status : UInt16) : String :=
  match status.toNat with
  | 200 => "OK"
  | 201 => "Created"
  | 202 => "Accepted"
  | 204 => "No Content"
  | 301 => "Moved Permanently"
  | 302 => "Found"
  | 304 => "Not Modified"
  | 400 => "Bad Request"
  | 401 => "Unauthorized"
  | 403 => "Forbidden"
  | 404 => "Not Found"
  | 405 => "Method Not Allowed"
  | 413 => "Payload Too Large"
  | 414 => "URI Too Long"
  | 431 => "Request Header Fields Too Large"
  | 500 => "Internal Server Error"
  | 501 => "Not Implemented"
  | 502 => "Bad Gateway"
  | 503 => "Service Unavailable"
  | _ => "Unknown Status"

def headerLine (header : String × String) : Bytes :=
  asBytes header.1 ++ asBytes ": " ++ asBytes header.2 ++ asBytes "\r\n"

def statusLine (status : UInt16) : Bytes :=
  asBytes ("HTTP/1.1 " ++ toString status.toNat ++ " " ++ reasonPhrase status ++ "\r\n")

def serializeHead (response : HandlerResponse) : Bytes :=
  statusLine response.status ++ response.headers.flatMap headerLine ++ asBytes "\r\n"

theorem serializeHead_ne_nil (response : HandlerResponse) : serializeHead response ≠ [] := by
  have h : statusLine response.status ≠ [] := by
    simp [statusLine, asBytes, String.utf8EncodeChar_ne_nil]
  simp [serializeHead, h]

end HelixRack
