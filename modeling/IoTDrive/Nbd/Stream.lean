import IoTDrive.Lib.Transition
import IoTDrive.Master.State

/-! The NBD socket of the master. `TCPClient::Receive` loops over `recv` until it has
the bytes it wants; what one `recv` returns is up to the kernel, so a call is
given the list of its returns. `NBDProxy::GetTaskArgs` receives the 28 bytes of a
packed `nbd_request`, swaps its words on a little-endian host and receives the
payload of a write. Then it makes arguments, which draw a UID, and stores the reply
under that. A call that the list leaves waiting in `recv` has no result. -/

namespace IoTDrive.Nbd

open Lib Message Master

/-- One return of `recv`: interrupted, another error, or at most `k + 1` bytes. -/
inductive Recv where
  | eintr
  | error
  | ready (k : ℕ)
  deriving DecidableEq, Repr

/-- How `TCPClient::Receive` ends: still in `recv`, the peer is gone, an error, or the bytes
with the rest of the stream and of the schedule. -/
inductive Received where
  | waiting
  | disconnected
  | failed
  | done (buffer stream : List UInt8) (schedule : List Recv)
  deriving DecidableEq, Repr

/-- `TCPClient::Receive` for `size` more bytes behind `buffer`. `closed` tells whether the
peer has closed the stream behind the bytes in it. -/
def receive (closed : Bool) : List Recv → ℕ → List UInt8 → List UInt8 → Received
  | schedule, 0, buffer, stream => .done buffer stream schedule
  | [], _ + 1, _, _ => .waiting
  | .eintr :: schedule, size + 1, buffer, stream => receive closed schedule (size + 1) buffer stream
  | .error :: _, _ + 1, _, _ => .failed
  | .ready k :: schedule, size + 1, buffer, stream =>
    let numbytes := min (k + 1) (min (size + 1) stream.length)
    if numbytes = 0 then if closed then .disconnected else .waiting
    else receive closed schedule (size + 1 - numbytes) (buffer ++ stream.take numbytes)
      (stream.drop numbytes)

/-! ### Byte order -/

/-- `ntohl` and `htonl` on a little-endian host. -/
def ntohl (x : UInt32) : UInt32 := UInt32.ofNat (leNat (leBytes 4 x.toNat).reverse)

/-- `NBD::Ntohll` as it is compiled there. -/
def ntohll (num : UInt64) : UInt64 :=
  let lo := (num &&& 0xffffffff).toUInt32
  let hi := (num >>> 32).toUInt32
  let lo := ntohl lo
  let hi := ntohl hi
  lo.toUInt64 <<< 32 ||| hi.toUInt64

/-- `struct nbd_request`, packed, with its words as they lie in memory. -/
structure NbdRequest where
  magic : UInt32
  type : UInt32
  handle : List UInt8
  start : UInt64
  len : UInt32
  deriving DecidableEq, Repr

def loadU32 (buffer : List UInt8) (k : ℕ) : UInt32 :=
  UInt32.ofNat (leNat ((buffer.drop k).take 4))

def loadU64 (buffer : List UInt8) (k : ℕ) : UInt64 :=
  UInt64.ofNat (leNat ((buffer.drop k).take 8))

/-- `sizeof(nbd_request)`, and the `memcpy` of as many bytes into one. -/
def requestSize : ℕ := 28

def NbdRequest.memcpy (buffer : List UInt8) : NbdRequest where
  magic := loadU32 buffer 0
  type := loadU32 buffer 4
  handle := (buffer.drop 8).take 8
  start := loadU64 buffer 16
  len := loadU32 buffer 24

/-- `NBD_REQUEST_MAGIC`. -/
def requestMagic : UInt32 := 0x25609513

/-! ### The proxy -/

/-- `enum FDMODE`. -/
inductive FDMode where
  | read | write
  deriving DecidableEq, Repr

/-- `NBDReadArgs` and `NBDWriteArgs`. -/
inductive NBDArgs where
  | read (uid : UID) (offset length : UInt64)
  | write (uid : UID) (offset length : UInt64) (buffer : Option (List UInt8))
  deriving DecidableEq, Repr

/-- The creators that the constructor registers with the factory. -/
def createArgs : FDMode → UID → UInt64 → UInt64 → Option (List UInt8) → NBDArgs
  | .read, uid, offset, length, _ => .read uid offset length
  | .write, uid, offset, length, buffer => .write uid offset length buffer

/-- How `GetTaskArgs` returns: arguments, a null pointer or an exception. -/
inductive Returned where
  | args (a : NBDArgs)
  | null
  | disconnected
  | failed
  | badMagic
  | unknownRequest
  deriving DecidableEq, Repr

/-- How far a call has come when it is done with the socket: it returns, or has a request to make
arguments of, with its data. -/
inductive Parsed where
  | returned (r : Returned)
  | request (request : NbdRequest) (data : Option (List UInt8))
  deriving DecidableEq, Repr

/-- The arguments of a request, a read if there is no data. -/
def NbdRequest.createdArgs (request : NbdRequest) (data : Option (List UInt8)) (uid : UID) :
    NBDArgs :=
  createArgs (if data.isNone then .read else .write) uid (ntohll request.start)
    (ntohl request.len).toUInt64 data

/-- The bytes that wait in the socket and the pending replies. -/
structure NBDProxy where
  stream : List UInt8
  closed : Bool
  responses : UID → Option NbdReply

namespace NBDProxy

/-- `GetTaskArgs` up to the arguments. -/
def receiveRequest (s : NBDProxy) (schedule : List Recv) : Option (NBDProxy × Parsed) :=
  match receive s.closed schedule requestSize [] s.stream with
  | .waiting => none
  | .disconnected => some (s, .returned .disconnected)
  | .failed => some (s, .returned .failed)
  | .done buffer stream schedule =>
    let request := NbdRequest.memcpy buffer
    let s := { s with stream }
    if request.magic ≠ ntohl requestMagic then some (s, .returned .badMagic)
    else match (ntohl request.type).toNat with
    | 0 => some (s, .request request none)
    | 1 =>
      match receive s.closed schedule (ntohl request.len).toNat [] s.stream with
      | .waiting => none
      | .disconnected => some (s, .returned .disconnected)
      | .failed => some (s, .returned .failed)
      | .done data stream _ => some ({ s with stream }, .request request (some data))
    | 2 | 3 | 4 => some (s, .returned .null)
    | _ => some (s, .returned .unknownRequest)

/-- `m_responses.emplace` of the reply to a request: nothing is stored where one is there. -/
def emplace (s : NBDProxy) (uid : UID) (request : NbdRequest) : NBDProxy :=
  { s with
    responses := Function.update s.responses uid
      (some ((s.responses uid).getD ⟨0, request.handle⟩)) }

/-- `OnNBDResponse` takes a pending reply. -/
def onNBDResponse (s : NBDProxy) (uid : UID) : NBDProxy :=
  { s with responses := Function.update s.responses uid none }

end NBDProxy

end IoTDrive.Nbd
