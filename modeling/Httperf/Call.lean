-- The call object (`call.h`, `call.c`): one request, kept as the array of
-- pieces that `writev` sends, and the counters of its reply.
import Httperf.Clib

namespace Httperf

/-! ## The request -/

/-- An `iovec`. `none` is the pair of a null pointer and length 0. `some b` is a pointer to
memory that starts with the `iov_len` bytes `b`. -/
abbrev Iovec := Option (List Byte)

/-- The bytes that `writev` takes from an element. -/
def Iovec.data (v : Iovec) : List Byte := v.getD []

def Iovec.iov_len (v : Iovec) : Nat := v.data.length

def MAX_EXTRA_HEADERS : Nat := 4

/-- `IOV_Element`: the places of the array `req.iov`. -/
def IE_METHOD : Nat := 0
def IE_BLANK : Nat := 1
def IE_LOC : Nat := 2
def IE_URI : Nat := 3
def IE_PROTL : Nat := 4
def IE_HOST : Nat := 5
def IE_NEWLINE1 : Nat := 6
def IE_FIRST_HEADER : Nat := 7
def IE_NEWLINE2 : Nat := IE_FIRST_HEADER + MAX_EXTRA_HEADERS
def IE_CONTENT : Nat := IE_NEWLINE2 + 1
def IE_LEN : Nat := IE_CONTENT + 1

/-- The array `req.iov`. Its length is part of the type. -/
abbrev IovArray := Vector Iovec IE_LEN

structure Request where
  version : Nat
  num_extra_hdrs : Nat
  iov_index : Nat
  size : Nat
  iov_saved : Iovec
  iov : IovArray
  deriving DecidableEq, Repr

/-- The bytes of the whole request: the elements `IE_METHOD` to `IE_CONTENT` in order. -/
def Request.full (r : Request) : List Byte := (r.iov.toList.map Iovec.data).flatten

/-! ## The reply -/

structure Reply where
  status : Int
  version : Nat
  header_bytes : UInt64
  content_bytes : UInt64
  footer_bytes : UInt64
  deriving DecidableEq, Repr

/-- The reply counters of a call that `object_new` cleared. -/
def Reply.zero : Reply := ⟨0, 0, 0, 0, 0⟩

structure Call where
  id : Nat
  req : Request
  reply : Reply
  deriving DecidableEq, Repr

/-- The call has received nothing yet. -/
def Call.Fresh (c : Call) : Prop := c.reply = Reply.zero

/-- `call_init`, on an object that `object_new` cleared. -/
def call_init (id http_version : Nat) : Call where
  id
  req := {
    version := http_version
    num_extra_hdrs := 0
    iov_index := 0
    size := 0
    iov_saved := none
    iov := ((((Vector.replicate IE_LEN none).set IE_METHOD (some (bytes "GET"))).set
      IE_BLANK (some (bytes " "))).set IE_NEWLINE1 (some [CR, LF])).set
      IE_NEWLINE2 (some [CR, LF]) }
  reply := Reply.zero

/-- The method string of a call is `HEAD`. -/
def Call.isHead (c : Call) : Bool := c.req.iov[IE_METHOD] == some (bytes "HEAD")

/-! ## The connection states -/

/-- `Conn_State`. -/
inductive ConnState where
  | S_INITIAL
  | S_CONNECTING
  | S_CONNECTED
  | S_REPLY_STATUS
  | S_REPLY_HEADER
  | S_REPLY_CONTINUE
  | S_REPLY_DATA
  | S_REPLY_CHUNKED
  | S_REPLY_FOOTER
  | S_REPLY_DONE
  | S_CLOSING
  | S_FREE
  deriving DecidableEq, Repr

/-- `state >= S_CLOSING`. -/
def ConnState.closing : ConnState → Bool
  | .S_CLOSING | .S_FREE => true
  | _ => false

end Httperf
