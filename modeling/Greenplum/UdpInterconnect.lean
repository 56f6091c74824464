/-
One connection of the UDP interconnect (ic_udpifc.c): the sending and the
receiving MotionConn and the packets between them.  A packet or an ack that has
been sent may arrive any number of times, at any later time and in any order,
or never.  Neither side requests a stop.
-/
import Mathlib.Algebra.Ring.Nat
import Mathlib.Data.List.Basic

namespace Greenplum.Udpifc

universe u

/-- Arithmetic of the `uint32` sequence numbers. -/
def add32 (left right : Nat) : Nat := (left + right) % 2 ^ 32

def sub32 (left right : Nat) : Nat := (left + 2 ^ 32 - right) % 2 ^ 32

inductive UdpicFlag where
  | receiverToSender
  | ack
  | stop
  | eos
  | nak
  | disorder
  | duplicate
  | capacity
deriving Repr, DecidableEq

/-- A data packet: the parts of its header that differ between packets, and
what it carries. -/
structure Packet (P : Type u) where
  seq : Nat
  eos : Bool
  content : P
deriving Repr, DecidableEq

/-- A control message to the sender.  `lost` is the array behind the header of
a disorder message. -/
structure Ack where
  flags : List UdpicFlag
  seq : Nat
  extraSeq : Nat
  lost : List Nat
deriving Repr, DecidableEq

inductive FlowControl where
  | capacity
  | loss
deriving Repr, DecidableEq

structure Config where
  fcMethod : FlowControl
  queueDepth : Nat
  sndQueueDepth : Nat
  maxCount : Nat
deriving Repr, DecidableEq

def maxSeqsInDisorderAck : Nat := 4

variable {P : Type u}

section

/-- The receiving MotionConn.  `seq`, `extraSeq` and `flags` are those of its
`conn_info`; `released` lists the packets that `putRxBufferAndSendAck` has
taken off the queue. -/
structure RxConn (P : Type u) where
  pktQ : Nat → Option (Packet P)
  pktQHead : Nat
  pktQTail : Nat
  pktQSize : Nat
  pktQCapacity : Nat
  seq : Nat
  extraSeq : Nat
  flags : List UdpicFlag
  stillActive : Bool
  pBuff : Option (Packet P)
  statCountDropped : Nat
  released : List (Packet P)

@[simp]
def RxConn.initial (cfg : Config) : RxConn P where
  pktQ := fun _ => none
  pktQHead := 0
  pktQTail := 0
  pktQSize := 0
  pktQCapacity := cfg.queueDepth
  seq := 1
  extraSeq := 0
  flags := [.receiverToSender]
  stillActive := true
  pBuff := none
  statCountDropped := 0
  released := []

/-- The loop that moves the tail over the packets that are there; it runs at
most once for each place of the queue. -/
def moveTail : Nat → RxConn P → RxConn P
  | 0, conn => conn
  | fuel + 1, conn =>
    if (conn.pktQ conn.pktQTail).isSome ∧ conn.pktQSize < conn.pktQCapacity then
      moveTail fuel { conn with
        pktQSize := conn.pktQSize + 1
        pktQTail := (conn.pktQTail + 1) % conn.pktQCapacity
        seq := add32 conn.seq 1 }
    else conn

/-- The sequence numbers that `handleDisorderPacket` reports, from `start` up to
`pos`. -/
def lostSeqs (conn : RxConn P) (pos : Nat) : Nat → Nat → Nat → Nat → List Nat
  | 0, _, _, _ => []
  | fuel + 1, start, tailSeq, lostPktCnt =>
    if start ≠ pos ∧ lostPktCnt < maxSeqsInDisorderAck then
      let next := (start + 1) % conn.pktQCapacity
      if (conn.pktQ start).isNone then
        tailSeq :: lostSeqs conn pos fuel next (add32 tailSeq 1) (lostPktCnt + 1)
      else lostSeqs conn pos fuel next (add32 tailSeq 1) lostPktCnt
    else []

variable (conn : RxConn P)

def handleDisorderPacket (pos tailSeq : Nat) (pkt : Packet P) : Ack :=
  ⟨.disorder :: conn.flags, pkt.seq, sub32 conn.seq 1,
    lostSeqs conn pos conn.pktQCapacity conn.pktQTail tailSeq 0⟩

/-- The answer of `handleDataPacket` to a status query message. -/
def handleStatusQuery : Ack :=
  let seq := if conn.seq > 0 then sub32 conn.seq 1 else 0
  ⟨.capacity :: .ack :: conn.flags, seq, conn.extraSeq, []⟩

def handleDataPacket (pkt : Packet P) : RxConn P × List Ack :=
  if pkt.seq < conn.seq then
    (conn, [⟨.ack :: .capacity :: conn.flags, sub32 conn.seq 1, conn.extraSeq, []⟩])
  else if conn.stillActive = false then
    let seq := if conn.seq < pkt.seq then pkt.seq else conn.seq
    ({ conn with seq := seq }, [⟨.ack :: .stop :: .capacity :: conn.flags, pkt.seq, pkt.seq, []⟩])
  else
    let headSeq := sub32 conn.seq conn.pktQSize
    if conn.pktQSize = conn.pktQCapacity ∨ sub32 pkt.seq headSeq ≥ conn.pktQCapacity then
      -- received a packet when the queue is full
      ({ conn with statCountDropped := conn.statCountDropped + 1 }, [])
    else
      let pos := sub32 pkt.seq 1 % conn.pktQCapacity
      match conn.pktQ pos with
      | some _ =>
        (conn, [⟨.duplicate :: conn.flags, pkt.seq, sub32 conn.seq 1, []⟩])
      | none =>
        let stored := { conn with
          pktQ := Function.update conn.pktQ pos (some pkt) }
        if pos = conn.pktQTail then
          let moved := moveTail stored.pktQCapacity stored
          let lastPos := (moved.pktQTail + moved.pktQCapacity - 1) % moved.pktQCapacity
          let flags :=
            match moved.pktQ lastPos with
            | some last => if last.eos then .eos :: moved.flags else moved.flags
            | none => moved.flags
          ({ moved with flags := flags }, [⟨.capacity :: .ack :: flags, sub32 moved.seq 1,
              moved.extraSeq, []⟩])
        else
          (stored, [handleDisorderPacket stored pos (add32 headSeq stored.pktQSize) pkt])

/-- The main thread takes the packet at the head of the queue. -/
def prepareRxConnForRead : Option (RxConn P) :=
  if (conn.pktQ conn.pktQHead).isSome then
    some { conn with pBuff := conn.pktQ conn.pktQHead }
  else none

def putRxBufferAndSendAck : Option (RxConn P × List Ack) :=
  match conn.pktQ conn.pktQHead with
  | none => none
  | some buf =>
    let after := { conn with
      pktQ := Function.update conn.pktQ conn.pktQHead none
      pBuff := none
      pktQHead := (conn.pktQHead + 1) % conn.pktQCapacity
      pktQSize := conn.pktQSize - 1
      extraSeq := buf.seq
      released := conn.released ++ [buf] }
    if buf.seq % 2 = 0 ∨ conn.pktQCapacity = 1 then
      some (after, [⟨.ack :: .capacity :: after.flags, sub32 after.seq 1, buf.seq, []⟩])
    else some (after, [])

/-- The main thread is done with the packet that `prepareRxConnForRead` gave it. -/
def mlPutRxBufferIFC : Option (RxConn P × List Ack) :=
  if conn.pBuff.isSome then putRxBufferAndSendAck conn else none

/-- The reader has found the end of the stream in its packet. -/
def markUDPConnInactiveIFC : Option (RxConn P) :=
  match conn.pBuff with
  | some pkt => if pkt.eos then some { conn with stillActive := false } else none
  | none => none

end

section

inductive MotionConnState where
  | setupOutgoingConnection
  | started
deriving Repr, DecidableEq

/-- The sending MotionConn and the parts of the process state that it uses.
`seq` and `eos` are those of its `conn_info`; `appended` lists what was put on
the send queue. -/
structure TxConn (P : Type u) where
  seq : Nat
  eos : Bool
  sndQueue : List (Packet P)
  unackQueue : List (Packet P)
  capacity : Nat
  consumedSeq : Nat
  receivedAckSeq : Nat
  sentSeq : Nat
  state : MotionConnState
  curBuff : Bool
  freeList : List (Packet P)
  count : Nat
  disorderLastSeq : Nat
  disorderTimes : Nat
  appended : List (Packet P)

variable (cfg : Config)

@[simp]
def TxConn.initial : TxConn P where
  seq := 1
  eos := false
  sndQueue := []
  unackQueue := []
  capacity := cfg.queueDepth
  consumedSeq := 0
  receivedAckSeq := 0
  sentSeq := 0
  state := .setupOutgoingConnection
  curBuff := true
  freeList := []
  count := 1
  disorderLastSeq := 0
  disorderTimes := 0
  appended := []

/-- The loop of `sendBuffers` over the send queue, with the packets it sends.
`window` is what the shared congestion window of loss based flow control leaves
to this connection beside its first outstanding packet. -/
def sendBuffersLoop (cfg : Config) : List (Packet P) → Nat → TxConn P → TxConn P × List (Packet P)
  | [], _, conn => (conn, [])
  | buf :: rest, window, conn =>
    if conn.capacity = 0 then (conn, [])
    else if cfg.fcMethod = .loss ∧ conn.unackQueue ≠ [] ∧ window = 0 then
      (conn, [])
    else if conn.state = .setupOutgoingConnection ∧ conn.unackQueue ≠ [] then
      (conn, [])
    else
      let sent := { conn with
        sndQueue := rest
        capacity := conn.capacity - 1
        unackQueue := conn.unackQueue ++ [buf]
        sentSeq := buf.seq }
      let window := if conn.unackQueue ≠ [] then window - 1 else window
      let result := sendBuffersLoop cfg rest window sent
      (result.1, buf :: result.2)

def sendBuffers (window : Nat) (conn : TxConn P) : TxConn P × List (Packet P) :=
  sendBuffersLoop cfg conn.sndQueue window conn

/-- `prepareXmit` and the append to the send queue, in `SendChunkUDPIFC` or,
with the flag of the end of the stream, in `SendEosUDPIFC`. -/
def sendChunk (conn : TxConn P) (content : P) (eos : Bool)
    (window : Nat) : Option (TxConn P × List (Packet P)) :=
  if conn.curBuff = true ∧ conn.eos = false then
    let pkt : Packet P := ⟨conn.seq, eos, content⟩
    some (sendBuffers cfg window { conn with
      eos := eos
      seq := add32 conn.seq 1
      sndQueue := conn.sndQueue ++ [pkt]
      curBuff := false
      appended := conn.appended ++ [pkt] })
  else none

/-- `getSndBuffer` from the loop of `SendChunkUDPIFC`. -/
def getSndBuffer (conn : TxConn P) : Option (TxConn P) :=
  if conn.curBuff = true ∨ conn.eos = true then none
  else if cfg.fcMethod = .capacity ∧
      cfg.sndQueueDepth ≤ conn.unackQueue.length + conn.sndQueue.length then
    none
  else
    match conn.freeList with
    | _ :: rest => some { conn with curBuff := true, freeList := rest }
    | [] =>
      if conn.count < cfg.maxCount then
        some { conn with curBuff := true, count := conn.count + 1 }
      else none

variable (conn : TxConn P)

/-- The buffer goes from the unack queue to the free list. -/
def handleAckedPacket (buf : Packet P) : TxConn P :=
  { conn with
    unackQueue := conn.unackQueue.filter (·.seq ≠ buf.seq)
    receivedAckSeq :=
      if (conn.unackQueue.head?.map Packet.seq) = some buf.seq then buf.seq
      else conn.receivedAckSeq
    state := if buf.seq = 1 then .started else conn.state
    freeList := conn.freeList ++ [buf] }

/-- The loops that acknowledge the buffers from a link on, up to `seq`. -/
def ackUpTo (seq : Nat) : List (Packet P) → TxConn P → TxConn P
  | [], conn => conn
  | buf :: rest, conn =>
    if buf.seq ≤ seq then ackUpTo seq rest (handleAckedPacket conn buf)
    else conn

/-- The second loop of `handleAckForDuplicatePkt`. -/
def ackSingle (seq : Nat) : List (Packet P) → TxConn P → TxConn P
  | [], conn => conn
  | buf :: rest, conn =>
    if buf.seq ≤ seq then
      if buf.seq = seq then handleAckedPacket conn buf
      else ackSingle seq rest conn
    else conn

def handleAckForDuplicatePkt (pkt : Ack) : TxConn P :=
  if pkt.seq ≤ pkt.extraSeq then conn
  else
    let continuous := ackUpTo pkt.extraSeq conn.unackQueue conn
    ackSingle pkt.seq continuous.unackQueue continuous

/-- The loop of `handleAckForDisorderPkt` with the packets it resends.  Every
turn moves on to the next buffer or to the next lost packet. -/
def disorderLoop (seq : Nat) :
    Nat → List (Packet P) → List Nat → TxConn P → TxConn P × List (Packet P)
  | fuel + 1, buf :: rest, lostSeq :: lost, conn =>
    if buf.seq ≤ seq then
      if buf.seq = seq then (handleAckedPacket conn buf, [])
      else if buf.seq = lostSeq then
        let result := disorderLoop seq fuel rest lost conn
        (result.1, buf :: result.2)
      else if buf.seq < lostSeq then
        disorderLoop seq fuel rest (lostSeq :: lost) (handleAckedPacket conn buf)
      else disorderLoop seq fuel (buf :: rest) lost conn
    else (conn, [])
  | _, _, _, conn => (conn, [])

def handleAckForDisorderPkt (pkt : Ack) : TxConn P × List (Packet P) :=
  if pkt.extraSeq ≠ conn.disorderLastSeq then
    ({ conn with disorderLastSeq := pkt.extraSeq, disorderTimes := 0 }, [])
  else
    let counted := { conn with disorderTimes := add32 conn.disorderTimes 1 }
    if counted.disorderTimes ≠ 2 then (counted, [])
    else
      disorderLoop pkt.seq (conn.unackQueue.length + pkt.lost.length + 1)
        conn.unackQueue pkt.lost counted

/-- The first part of an ack: the receiver has consumed more packets. -/
def handleCapacity (pkt : Ack) : TxConn P :=
  if .capacity ∈ pkt.flags ∧ conn.consumedSeq < pkt.extraSeq then
    { conn with
      capacity := conn.capacity + sub32 pkt.extraSeq conn.consumedSeq
      consumedSeq := pkt.extraSeq }
  else conn

/-- `handleAcks` for one message, up to the sending of more buffers. -/
def handleAck (pkt : Ack) : TxConn P × List (Packet P) :=
  if .nak ∈ pkt.flags then (conn, [])
  else if .capacity ∉ pkt.flags ∧ .duplicate ∈ pkt.flags then
    (handleAckForDuplicatePkt conn pkt, [])
  else if .capacity ∉ pkt.flags ∧ .disorder ∈ pkt.flags then
    handleAckForDisorderPkt conn pkt
  else
    let conn := handleCapacity conn pkt
    if pkt.seq ≤ conn.receivedAckSeq then (conn, [])
    else if .ack ∈ pkt.flags then (ackUpTo pkt.seq conn.unackQueue conn, [])
    else (conn, [])

/-- `handleAcks` for one message.  More buffers are sent when something was
acknowledged or consumed; the flag stays set for the messages read after it. -/
def handleAcks (pkt : Ack) (shouldSendBuffers : Bool) (window : Nat) : TxConn P × List (Packet P) :=
  let handled := handleAck conn pkt
  if shouldSendBuffers = true ∨ handled.1.unackQueue.length < conn.unackQueue.length ∨
      conn.consumedSeq < handled.1.consumedSeq then
    let result := sendBuffers cfg window handled.1
    (result.1, handled.2 ++ result.2)
  else handled

end

section

variable [DecidableEq P]

/-- Both ends and all messages sent so far. -/
structure World (P : Type u) where
  tx : TxConn P
  rx : RxConn P
  packets : List (Packet P)
  acks : List Ack
  queries : Nat

@[simp]
def World.initial (cfg : Config) : World P :=
  ⟨.initial cfg, .initial cfg, [], [], 0⟩

inductive Action (P : Type u) where
  | sendChunk (content : P) (eos : Bool) (window : Nat)
  | getSndBuffer
  | checkExpiration (pkt : Packet P)
  | checkDeadlock
  | handleAcks (pkt : Ack) (shouldSendBuffers : Bool) (window : Nat)
  | handleDataPacket (pkt : Packet P)
  | handleStatusQuery
  | prepareRxConnForRead
  | mlPutRxBufferIFC
  | markUDPConnInactiveIFC

/-- A packet is resent when its time is up: any outstanding one under loss
based flow control, the first one under capacity based flow control. -/
def mayExpire (cfg : Config) (conn : TxConn P) (pkt : Packet P) : Bool :=
  match cfg.fcMethod with
  | .loss => decide (pkt ∈ conn.unackQueue)
  | .capacity => decide (conn.unackQueue.head? = some pkt)

def step (cfg : Config) (world : World P) : Action P → Option (World P)
  | .sendChunk content eos window =>
    (sendChunk cfg world.tx content eos window).map fun result =>
      { world with tx := result.1, packets := world.packets ++ result.2 }
  | .getSndBuffer =>
    (getSndBuffer cfg world.tx).map fun conn => { world with tx := conn }
  | .checkExpiration pkt =>
    if mayExpire cfg world.tx pkt then
      some { world with packets := world.packets ++ [pkt] }
    else none
  | .checkDeadlock =>
    if world.tx.unackQueue = [] ∧ world.tx.capacity = 0 ∧ world.tx.sndQueue ≠ [] then
      some { world with queries := world.queries + 1 }
    else none
  | .handleAcks pkt shouldSendBuffers window =>
    if pkt ∈ world.acks then
      let result := handleAcks cfg world.tx pkt shouldSendBuffers window
      some { world with
        tx := result.1, packets := world.packets ++ result.2 }
    else none
  | .handleDataPacket pkt =>
    if pkt ∈ world.packets then
      let result := handleDataPacket world.rx pkt
      some { world with rx := result.1, acks := world.acks ++ result.2 }
    else none
  | .handleStatusQuery =>
    if 0 < world.queries then
      some { world with acks := world.acks ++ [handleStatusQuery world.rx] }
    else none
  | .prepareRxConnForRead =>
    (prepareRxConnForRead world.rx).map fun conn => { world with rx := conn }
  | .mlPutRxBufferIFC =>
    (mlPutRxBufferIFC world.rx).map fun result =>
      { world with rx := result.1, acks := world.acks ++ result.2 }
  | .markUDPConnInactiveIFC =>
    (markUDPConnInactiveIFC world.rx).map fun conn => { world with rx := conn }

def run (cfg : Config) (world : World P) (actions : List (Action P)) : Option (World P) :=
  actions.foldlM (step cfg) world

end

end Greenplum.Udpifc
