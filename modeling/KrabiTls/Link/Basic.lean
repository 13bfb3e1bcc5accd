import KrabiTls.Link.Peer

/-! The engine in its data phase, connected to a peer by two first-in first-out byte channels. -/
namespace KrabiTls
open Lib

namespace Core
variable {cfg : ClientConfig} {sz : Sizes} (c : Core cfg sz)

def recvHalf (conn : AppData) : Half :=
  ⟨conn.suite, conn.sApTs, conn.sApKeys, conn.seqIn, c.history.recvGen⟩

def sendHalf (conn : AppData) : Half :=
  ⟨conn.suite, conn.cApTs, conn.cApKeys, conn.seqOut, c.history.sendGen⟩

/-- The records sealed under the application keys, each with its generation and number. -/
def sentLog : List OpenedRecord :=
  c.history.sealed.filterMap fun (gen, r) =>
    match gen with
    | .handshake => none
    | .application n => some ⟨n, r.seq, r.record, r.content, r.contentType⟩

/-- The `KeyUpdate` messages among them. -/
def updatesSent : List Bytes :=
  (c.sentLog.filter (·.contentType = ctHandshake)).map OpenedRecord.content

end Core

/-- A reading of the records of a peer: the bytes of an unfinished `KeyUpdate`, how many updates
with `update_requested` are complete, and whether another record stood between fragments. -/
structure UpdateScan where
  staged : Bytes := []
  requests : Nat := 0
  interleaved : Bool := false
  deriving DecidableEq, Repr

def UpdateScan.next (s : UpdateScan) (r : OpenedRecord) : UpdateScan :=
  if r.contentType = ctHandshake then
    let staged := s.staged ++ r.content
    if staged.length < 5 then { s with staged }
    else
      { s with
        staged := []
        requests := s.requests + if staged = AppData.keyUpdateMsg true then 1 else 0 }
  else { s with interleaved := s.interleaved || s.staged ≠ [] }

def UpdateScan.of (log : List OpenedRecord) : UpdateScan :=
  log.foldl UpdateScan.next {}

theorem UpdateScan.of_append (log : List OpenedRecord) (r : OpenedRecord) :
    UpdateScan.of (log ++ [r]) = (UpdateScan.of log).next r := by
  simp [UpdateScan.of]

/-- `down` carries the peer's bytes to the engine, `up` the engine's to the peer. The rest is
history: the bytes the transport took from the engine, and the errors `step` returned. -/
structure Link (cfg : ClientConfig) (sz : Sizes) where
  engine : Engine cfg sz
  peer : Peer
  down : Bytes
  up : Bytes
  flushed : Bytes
  errors : List HandshakeError

inductive Link.Action where
  | peerSend (s : PeerSend)
  | peerTake
  | deliver (n : Nat)
  | step
  | readApp (outLen : Nat)
  | writeApp (plaintext : Bytes)
  | flush (n : Nat)

namespace Link
variable {cfg : ClientConfig} {sz : Sizes} (l : Link cfg sz)

/-- The peer seals and sends, if it can. -/
def peerSend (s : PeerSend) : Link cfg sz :=
  match l.peer.emit cfg l.engine.core.ourRecvLimit s with
  | .error _ => l
  | .ok (r, peer) => { l with peer, down := l.down ++ r.record }

/-- The peer takes the next record, if all of it has arrived. -/
def peerTake : Link cfg sz :=
  match frame (tlsHeader + tlsCiphertextMax) l.up with
  | .need => l
  | .tooLarge _ => { l with peer.failed := l.peer.failed ++ [.decrypt .recordTooLarge] }
  | .record record rest => { l with peer := l.peer.take cfg record, up := rest }

/-- The transport hands over up to `n` bytes, as many as `recv_buffer()` has room for. -/
def deliver (n : Nat) : Link cfg sz :=
  let chunk := l.down.take (min n l.engine.recvBufferLen)
  { l with
    engine := ((l.engine.fill chunk).advance chunk.length).2
    down := l.down.drop chunk.length }

/-- The transport takes up to `n` bytes of the pending record. -/
def flush (n : Nat) : Link cfg sz :=
  let chunk := l.engine.core.sendBytes.take n
  { l with
    engine := (l.engine.markSent chunk.length).2
    up := l.up ++ chunk
    flushed := l.flushed ++ chunk }

def step : Link cfg sz :=
  match l.engine.step with
  | (.ok _, engine) => { l with engine }
  | (.error e, engine) => { l with engine, errors := l.errors ++ [e] }

def act : Action → Link cfg sz
  | .peerSend s => l.peerSend s
  | .peerTake => l.peerTake
  | .deliver n => l.deliver n
  | .step => l.step
  | .readApp outLen => { l with engine := (l.engine.readApp outLen).2 }
  | .writeApp plaintext => { l with engine := (l.engine.writeApp plaintext).2 }
  | .flush n => l.flush n

def run (actions : List Action) : Link cfg sz :=
  actions.foldl act l

def fresh (e : Engine cfg sz) (conn : AppData) : Link cfg sz where
  engine := e
  peer := { send := e.core.recvHalf conn, recv := e.core.sendHalf conn }
  down := []
  up := []
  flushed := []
  errors := []

/-- The link at the start of the data phase. The engine may have received a part of what the peer
has sent by then. -/
def start (e : Engine cfg sz) (conn : AppData) (early : List PeerSend) : Link cfg sz :=
  let l := early.foldl peerSend (fresh e conn)
  { l with down := l.down.drop e.buffered.length }

end Link

/-- An engine at the start of its data phase. The receive limit is the one `connect` advertises for
a buffer of legal size. -/
structure Engine.DataStart {cfg : ClientConfig} {sz : Sizes} (e : Engine cfg sz) (conn : AppData)
    (early : List PeerSend) : Prop where
  state : e.core.state = .app conn
  idle : e.core.Idle
  sendWf : e.core.SendWf
  ordered : e.recv.Ordered sz.recv
  ph : e.core.ph = {}
  limit : (e.core.ourRecvLimit : Nat) + recordOverhead ≤ sz.recv
  opened : e.core.history.opened = []
  sentLog : e.core.sentLog = []
  buffered : e.buffered <+: (early.foldl Link.peerSend (Link.fresh e conn)).down

namespace Sample

/-- The sample engine at the start of its data phase, with its connection. -/
def dataPhase : Option (Engine .sample sizes × AppData) :=
  let e := (engine sizes).after handshake
  match e.core.state with
  | .app conn => some (e, conn)
  | _ => none

theorem dataPhase_state {e : Engine .sample sizes} {conn : AppData}
    (h : dataPhase = some (e, conn)) : e.core.state = .app conn := by
  dsimp only [dataPhase] at h
  generalize (engine sizes).after handshake = e₀ at h
  split at h
  · rename_i hstate
    cases h
    exact hstate
  · cases h

def updateActions : List Link.Action :=
  [.peerSend (.fragment true 2), .peerSend (.fragment true 3), .peerSend (.app [1, 2]), .deliver 100,
    .step, .flush 10, .flush 100, .step, .peerTake]

end Sample

end KrabiTls
