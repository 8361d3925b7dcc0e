import HftPipeline.WireStream
import HftPipeline.CachedBroadcast

/-!
# The retransmit server

`Connection`, and `RetransmitServer` with its event loop. What the kernel does while an event
is handled comes with the event. A failed assertion and a branch marked unreachable are
`none`.
-/
namespace HftPipeline

/-- The values of `exchange::Error` that the server uses. -/
inductive ServerError where
  | packetTooOld | invalidPacket | packetUnavailable | clientConnection | serverFatal
  | serverBusy | setSocketNonblocking | clientConnectionClosed | wouldBlock | receiveFromClient | sendToClient
  | newConnection | registerEvent | eventQueue
  deriving DecidableEq, Repr

def ServerError.code : ServerError → UInt16
  | .packetTooOld => 1
  | .invalidPacket => 2
  | .packetUnavailable => 3
  | .clientConnection => 4
  | .serverFatal => 5
  | .serverBusy => 12
  | .setSocketNonblocking => 15
  | .clientConnectionClosed => 16
  | .wouldBlock => 17
  | .receiveFromClient => 18
  | .sendToClient => 19
  | .newConnection => 20
  | .registerEvent => 22
  | .eventQueue => 23

/-- What the kernel does for one connection: the bytes to be received, what `recv` returns
after them, how many bytes each `send` takes, why the next one fails, and the bytes that
were handed to it. -/
structure StreamSocket where
  chunks : List (List UInt8)
  recvEnd : RecvEnd
  sends : List Nat
  sendEnd : Errno
  handed : List UInt8

/-! ## A connection -/

inductive Connection.Status where
  | clear | savedMessage | partialSend | partialReceive
  deriving DecidableEq, Repr

/-- `Connection<EncodedMessage::MAX_WIRE_SIZE>`; a socket of `-1` is `none`. -/
structure Connection where
  buffer : List UInt8
  socket : Option Nat
  head : Nat
  tail : Nat
  status : Connection.Status
  deriving DecidableEq, Repr

namespace Connection

def new : Connection := ⟨List.replicate EncodedMessage.maxWireSize 0, none, 0, 0, .clear⟩

def clear (c : Connection) : Connection := { c with head := 0, tail := 0, status := .clear }

def close (c : Connection) : Connection := { c.clear with socket := none }

def save (c : Connection) (bytes : List UInt8) : Option Connection :=
  if (c.status = .clear ∨ c.status = .savedMessage) ∧ bytes.length ≤ c.buffer.length - c.head then
    some { c with
      buffer := overwrite c.buffer c.head bytes, head := c.head + bytes.length, status := .savedMessage }
  else none

/-- What a failed `send_range` is reported as. -/
def sendError : Errno → ServerError
  | .wouldBlock => .wouldBlock
  | .connReset => .clientConnectionClosed
  | .pipe | .other => .sendToClient

def send (c : Connection) (k : StreamSocket) : Option (Except ServerError Unit × Connection × StreamSocket) :=
  if c.socket.isSome ∧ (c.status = .savedMessage ∨ c.status = .partialSend) then
    let sent := sendRange k.sendEnd c.buffer k.sends c.tail c.head
    let k := { k with sends := sent.sends, handed := k.handed ++ sent.bytes }
    let c := { c with tail := sent.start, status := .partialSend }
    match sent.error with
    | none => some (.ok (), c.clear, k)
    | some errno => some (.error (sendError errno), c, k)
  else none

/-- `bytes` is ignored after a partial receive. -/
def receive (c : Connection) (bytes : Nat) (k : StreamSocket) :
    Option (Except ServerError (List UInt8) × Connection × StreamSocket) :=
  if c.socket.isSome ∧ (c.status = .clear ∧ bytes ≤ c.buffer.length ∨ c.status = .partialReceive) then
    let c := if c.status = .clear then { c with head := bytes, status := .partialReceive } else c
    let received := recvRange k.recvEnd k.chunks c.buffer c.tail c.head
    let k := { k with chunks := received.chunks }
    let c := { c with buffer := received.buffer, tail := received.start }
    match received.status with
    | .success => some (.ok (c.buffer.take c.head), c.clear, k)
    | .connectionClosed => some (.error .clientConnectionClosed, c, k)
    | .error .wouldBlock => some (.error .wouldBlock, c, k)
    | .error _ => some (.error .receiveFromClient, c, k)
  else none

end Connection

structure SavedConnection where
  connection : Connection
  request : Option RetransmitRequest
  deriving DecidableEq, Repr

def SavedConnection.new : SavedConnection := ⟨.new, none⟩

/-- The cache holds messages in memory of their size. -/
abbrev RetransmitCache := CircularCache MessageSlot retransmitCacheBits

/-- What an event finds: the cache, the memory of an error message, and whether a write event
can be registered. -/
structure EventContext where
  cache : RetransmitCache
  memory : MessageMemory
  registers : Bool

/-! ## Serving one client -/

def CacheError.serverError : CacheError → ServerError
  | .dataTooOld => .packetTooOld
  | .dataDoesNotExist => .invalidPacket
  | .concurrentWrite => .packetUnavailable

/-- The loop of `stream_packets`, for as many rounds as packets are left. -/
def streamLoop (cache : RetransmitCache) : Nat → Connection → RetransmitRequest → StreamSocket →
    Option (Except ServerError Unit × SavedConnection × StreamSocket)
  | 0, c, _, k => some (.ok (), ⟨c, none⟩, k)
  | rounds + 1, c, request, k =>
    match cache.tryGetItem (request.firstPacket - firstSequenceId).toUInt32 with
    | .error error => some (.error error.serverError, ⟨c, some request⟩, k)
    | .ok message => do
      let c ← c.save message.val.message
      match ← c.send k with
      | (.error error, c, k) => return (.error error, ⟨c, some request⟩, k)
      | (.ok (), c, k) => streamLoop cache rounds c { request with firstPacket := request.firstPacket + 1 } k

/-- How often `first_packet < last_packet` holds as `first_packet` goes up. -/
def RetransmitRequest.remaining (request : RetransmitRequest) : Nat :=
  request.lastPacket.toNat - request.firstPacket.toNat

def streamPackets (cache : RetransmitCache) (client : SavedConnection) (k : StreamSocket) :
    Option (Except ServerError Unit × SavedConnection × StreamSocket) := do
  let request ← client.request
  if client.connection.socket.isSome then
    if request.firstPacket < firstSequenceId then return (.error .invalidPacket, client, k)
    else if client.connection.status = .partialSend then
      match ← client.connection.send k with
      | (.error error, c, k) => return (.error error, ⟨c, some request⟩, k)
      | (.ok (), c, k) =>
        let request := { request with firstPacket := request.firstPacket + 1 }
        streamLoop cache request.remaining c request k
    else streamLoop cache request.remaining client.connection request k
  else none

def receiveRequest (client : SavedConnection) (k : StreamSocket) :
    Option (Except ServerError Unit × SavedConnection × StreamSocket) := do
  match ← client.connection.receive RetransmitRequest.packedSize k with
  | (.error error, c, k) => return (.error error, { client with connection := c }, k)
  | (.ok wire, c, k) =>
    let request ← RetransmitRequest.parse wire
    return (.ok (), ⟨c, some request⟩, k)

/-- `close_client`, without the count. -/
def closeClient (client : SavedConnection) : SavedConnection := ⟨client.connection.close, none⟩

/-- `notify_and_close`, without the count. -/
def notifyAndClose (context : EventContext) (client : SavedConnection) (error : ServerError) (k : StreamSocket) :
    Option (SavedConnection × StreamSocket) := do
  let message ← errorMessage error.code context.memory
  let c ← client.connection.clear.save message.message
  let (_, c, k) ← c.send k
  return (closeClient { client with connection := c }, k)

/-- What `handle_request` leaves behind: the client, whether it was closed, the request it
received, if any, and what it had handed to the kernel before it closed the client. -/
structure Handled where
  result : Except ServerError Unit
  client : SavedConnection
  socket : StreamSocket
  closed : Bool
  received : Option RetransmitRequest
  streamed : List UInt8

/-- What `notify_and_close` handed to the kernel. -/
def Handled.notice (h : Handled) : List UInt8 := h.socket.handed.drop h.streamed.length

/-- The second part of `handle_request`. -/
def answerRequest (context : EventContext) (client : SavedConnection) (received : Option RetransmitRequest)
    (k : StreamSocket) : Option Handled := do
  match ← streamPackets context.cache client k with
  | (.ok (), client, k) => return ⟨.ok (), client, k, false, received, k.handed⟩
  | (.error .wouldBlock, client, k) =>
    if context.registers then return ⟨.ok (), client, k, false, received, k.handed⟩
    else
      let (closed, k') ← notifyAndClose context client .clientConnection k
      return ⟨.error .registerEvent, closed, k', true, received, k.handed⟩
  | (.error .clientConnectionClosed, client, k) =>
    return ⟨.error .clientConnectionClosed, closeClient client, k, true, received, k.handed⟩
  | (.error .packetTooOld, client, k) =>
    return ⟨.error .packetTooOld, closeClient client, k, true, received, k.handed⟩
  | (.error .invalidPacket, client, k) =>
    return ⟨.error .invalidPacket, closeClient client, k, true, received, k.handed⟩
  | (.error .packetUnavailable, client, k) =>
    return ⟨.error .packetUnavailable, closeClient client, k, true, received, k.handed⟩
  | (.error .sendToClient, client, k) =>
    return ⟨.error .sendToClient, closeClient client, k, true, received, k.handed⟩
  | (.error _, _, _) => none

def handleRequest (context : EventContext) (client : SavedConnection) (k : StreamSocket) : Option Handled :=
  match client.connection.status with
  | .clear | .partialReceive => do
    match ← receiveRequest client k with
    | (.ok (), client, k) => answerRequest context client client.request k
    | (.error .wouldBlock, client, k) => return ⟨.ok (), client, k, false, none, k.handed⟩
    | (.error .clientConnectionClosed, client, k) =>
      return ⟨.error .clientConnectionClosed, closeClient client, k, true, none, k.handed⟩
    | (.error .receiveFromClient, client, k) =>
      let (closed, k') ← notifyAndClose context client .clientConnection k
      return ⟨.error .receiveFromClient, closed, k', true, none, k.handed⟩
    | (.error _, _, _) => none
  | .savedMessage | .partialSend => answerRequest context client none k

/-! ## The event loop -/

structure RetransmitServer where
  socketFd : Nat
  currentConnections : UInt64
  connectionBuffers : List SavedConnection

/-- `config::MAX_TOTAL_CONNECTIONS`. -/
def maxTotalConnections : UInt64 := 25

/-- `config::DEFAULT_CONNECTION_BUFFERS`. -/
def defaultConnectionBuffers : Nat := 5

/-- What `accept` returns, and whether the new socket can be made nonblocking and registered. -/
inductive Accept where
  | wouldBlock
  | aborted
  | failed
  | accepted (fd : Nat) (nonblocking registered : Bool)
  deriving DecidableEq, Repr

/-- An event of a batch, and what the kernel does while it is handled. -/
structure KEvent where
  ident : Nat
  error : Bool
  accepts : List Accept
  context : EventContext
  chunks : List (List UInt8)
  recvEnd : RecvEnd
  sends : List Nat
  sendEnd : Errno

/-- The kernel's side of the client's connection, from the packet in progress on. -/
def KEvent.socket (event : KEvent) (client : SavedConnection) : StreamSocket :=
  ⟨event.chunks, event.recvEnd, event.sends, event.sendEnd,
    client.connection.buffer.take client.connection.tail⟩

namespace RetransmitServer

/-- After `initialize`. -/
def init (socketFd : Nat) : RetransmitServer :=
  ⟨socketFd, 1, List.replicate defaultConnectionBuffers .new⟩

/-- Room is made for the new descriptor, and its entry gets the socket. -/
def adopt (s : RetransmitServer) (fd : Nat) : RetransmitServer :=
  let buffers := s.connectionBuffers ++ List.replicate (fd + 1 - s.connectionBuffers.length) .new
  { s with
    connectionBuffers := buffers.modify fd fun client =>
      { client with connection := { client.connection with socket := some fd } }
    currentConnections := s.currentConnections + 1 }

/-- `handle_new_connections`; `false` is `ServerFatal`. -/
def handleNewConnections : List Accept → RetransmitServer → Bool × RetransmitServer
  | [], s => (true, s)
  | accept :: accepts, s =>
    if maxTotalConnections ≤ s.currentConnections then (true, s)
    else match accept with
      | .wouldBlock => (true, s)
      | .aborted => handleNewConnections accepts s
      | .failed => (false, s)
      | .accepted fd nonblocking registered =>
        if nonblocking && registered then handleNewConnections accepts (s.adopt fd)
        else handleNewConnections accepts s

/-- An entry is replaced, and if its client was closed there is one connection less. -/
def settle (s : RetransmitServer) (fd : Nat) (client : SavedConnection) (closed : Bool) : RetransmitServer :=
  { s with
    connectionBuffers := s.connectionBuffers.set fd client
    currentConnections := if closed then s.currentConnections - 1 else s.currentConnections }

/-- One event of the loop; the loop returns when the server cannot go on. -/
def handleEvent (s : RetransmitServer) (event : KEvent) : Option (Bool × RetransmitServer) :=
  if event.ident = s.socketFd then
    if event.error then some (false, s) else some (handleNewConnections event.accepts s)
  else do
    let client ← s.connectionBuffers[event.ident]?
    if event.error then
      let (closed, _) ← notifyAndClose event.context client .clientConnection (event.socket client)
      return (true, s.settle event.ident closed true)
    else
      let handled ← handleRequest event.context client (event.socket client)
      return (true, s.settle event.ident handled.client handled.closed)

end RetransmitServer

end HftPipeline
