/-
Both ends of a connection together: over every run of the sender, the receiver
and the network, the reader gets the packets of the sender in order.
-/
import Greenplum.UdpSender

namespace Greenplum.Udpifc

open RingWindow List Option

universe u

variable {P : Type u} {cfg : Config} {sent : List (Packet P)} {world : World P}

/-- The invariant of a connection.  `sent` lists the packets that have been
sent at least once. -/
structure Inv (cfg : Config) (sent : List (Packet P)) (world : World P) : Prop where
  tx : TxOk cfg world.rx.Received sent world.tx
  rx : RxOk cfg sent world.rx
  packets : ∀ pkt ∈ world.packets, pkt ∈ sent
  acks : ∀ ack ∈ world.acks, AckOk world.rx ack
  consumedSeq : world.tx.consumedSeq ≤ world.rx.consumed
  closed : world.rx.stillActive = false →
    world.rx.consumed + world.rx.pktQSize = world.tx.appended.length ∧ world.tx.eos = true

theorem initial_inv (cfg : Config) : Inv cfg ([] : List (Packet P)) (World.initial cfg) where
  tx := initial_txOk cfg _
  rx := initial_rxOk cfg
  packets := by simp
  acks := by simp
  consumedSeq := Nat.zero_le _
  closed := fun hinactive => by cases hinactive

section

variable (h : Inv cfg sent world)

include h

/-- No more than the queue of the receiver can hold is on the way. -/
theorem Inv.window : sent.length ≤ world.rx.consumed + cfg.queueDepth := by
  have hwindow := h.tx.window
  have hconsumed := h.consumedSeq
  omega

theorem Inv.sender {more : List (Packet P)} {result : TxConn P × List (Packet P)}
    (hstep : TxStep cfg world.rx (sent ++ more) world.tx result) :
    Inv cfg (sent ++ more) { world with tx := result.1, packets := world.packets ++ result.2 } where
  tx := hstep.ok
  rx := h.rx.mono
  packets := by
    intro pkt hmem
    rcases mem_append.mp hmem with hold | hnew
    · exact mem_append_left _ (h.packets pkt hold)
    · exact hstep.packets pkt hnew
  acks := h.acks
  consumedSeq := hstep.consumed
  closed := by
    intro hinactive
    rcases h.closed hinactive with ⟨hall, heos⟩
    rcases hstep.eos heos with ⟨heos', happended⟩
    exact ⟨hall.trans (congrArg List.length happended.symm), heos'⟩

theorem Inv.receiver {result : RxConn P × List Ack} (hstep : RxStep cfg sent world.rx result) :
    Inv cfg sent { world with rx := result.1, acks := world.acks ++ result.2 } where
  tx := h.tx.mono hstep.grows.received
  rx := hstep.ok
  packets := h.packets
  acks := by
    intro ack hmem
    rcases mem_append.mp hmem with hold | hnew
    · exact (h.acks ack hold).mono hstep.grows
    · exact hstep.acks ack hnew
  consumedSeq := le_trans h.consumedSeq hstep.grows.consumed
  closed := by
    intro hinactive
    rcases h.closed (hstep.active.symm.trans hinactive) with ⟨hall, heos⟩
    refine ⟨le_antisymm ?_ ?_, heos⟩
    · exact le_trans hstep.ok.tail_le h.tx.sent_le
    · exact hall ▸ hstep.grows.tail

theorem Inv.expected (hbound : sent.length < 2 ^ 32 - 1) {pkt : Packet P}
    (hmem : pkt ∈ world.packets) : Expected cfg sent world.rx pkt :=
  ⟨(h.tx.sent_getElem? (h.packets pkt hmem)).1,
    (h.tx.sent_getElem? (h.packets pkt hmem)).2, h.window, hbound⟩

theorem Inv.handleDataPacket (hbound : sent.length < 2 ^ 32 - 1) {pkt : Packet P}
    (hmem : pkt ∈ world.packets) :
    RxStep cfg sent world.rx (Udpifc.handleDataPacket world.rx pkt) := by
  apply handleDataPacket_rxStep h.rx (h.expected hbound hmem)
  intro hinactive
  have hall := (h.closed hinactive).1
  have htail := h.rx.tail_le
  have hsent := h.tx.sent_le
  omega

/-- The packet with the end of the stream is the last one, so a receiver that
has read it has everything. -/
theorem Inv.markInactive (hcap : 0 < cfg.queueDepth)
    {after : RxConn P} (hmark : markUDPConnInactiveIFC world.rx = some after) :
    Inv cfg sent { world with rx := after } := by
  rcases markUDPConnInactiveIFC_spec h.rx hcap hmark with
    ⟨hok, hgrows, hsize, pkt, heos, hget, hpos⟩
  have hlast := h.tx.eos_last _ pkt (h.tx.appended_of_sent hget) heos
  refine ⟨h.tx.mono hgrows.received, hok, h.packets, fun ack hmem => (h.acks ack hmem).mono hgrows,
    le_trans h.consumedSeq hgrows.consumed, fun _ => ⟨?_, hlast.2⟩⟩
  have hupper := le_trans hok.tail_le h.tx.sent_le
  have hlower := hgrows.tail
  change after.consumed + after.pktQSize = world.tx.appended.length
  omega

end

section

theorem Acked.appended {received : Nat → Prop} {before after : TxConn P}
    (hacked : Acked received before after) : after.appended = before.appended := by
  have hframe := hacked.frame
  simp only [TxConn.withoutAcks, TxConn.mk.injEq, true_and] at hframe
  exact hframe.2.2.2.2.2.2.2.2

theorem disorderLoop_appended (seq fuel : Nat) (bufs : List (Packet P))
    (lost : List Nat) (conn : TxConn P) :
    (disorderLoop seq fuel bufs lost conn).1.appended = conn.appended := by
  fun_induction disorderLoop <;> grind [handleAckedPacket]

theorem handleAck_appended (conn : TxConn P) (pkt : Ack) :
    (handleAck conn pkt).1.appended = conn.appended := by
  have hduplicate : Acked (fun _ => True) conn (handleAckForDuplicatePkt conn pkt) :=
    handleAckForDuplicatePkt_acked conn (fun _ _ => trivial) trivial
  have hdisorder : (handleAckForDisorderPkt conn pkt).1.appended = conn.appended := by
    unfold handleAckForDisorderPkt
    grind [disorderLoop_appended]
  have hcapacity : (handleCapacity conn pkt).appended = conn.appended := by
    unfold handleCapacity
    split <;> rfl
  have hregular : Acked (fun _ => True) (handleCapacity conn pkt)
      (ackUpTo pkt.seq (handleCapacity conn pkt).unackQueue (handleCapacity conn pkt)) :=
    ackUpTo_acked (fun _ _ => trivial) _ _
  have hduplicate := hduplicate.appended
  have hregular := hregular.appended
  unfold handleAck
  grind

theorem handleAcks_appended (conn : TxConn P) (pkt : Ack)
    (shouldSendBuffers : Bool) (window : Nat) :
    (handleAcks cfg conn pkt shouldSendBuffers window).1.appended = conn.appended := by
  unfold handleAcks
  dsimp only
  split
  · rw [(sendBuffers_sends cfg window _).appended, handleAck_appended]
  · exact handleAck_appended conn pkt

theorem sendChunk_appended {conn : TxConn P} {content : P} {eos : Bool}
    {window : Nat} {result : TxConn P × List (Packet P)}
    (hsend : sendChunk cfg conn content eos window = some result) :
    result.1.appended = conn.appended ++ [⟨conn.seq, eos, content⟩] := by
  unfold sendChunk at hsend
  split at hsend
  · cases hsend
    exact (sendBuffers_sends cfg window _).appended
  · cases hsend

theorem getSndBuffer_appended {conn after : TxConn P} (hget : getSndBuffer cfg conn = some after) :
    after.appended = conn.appended := by
  unfold getSndBuffer at hget
  grind

variable [DecidableEq P]

theorem step_appended {next : World P} {action : Action P}
    (hstep : step cfg world action = some next) :
    world.tx.appended.length ≤ next.tx.appended.length := by
  cases action with
  | sendChunk content eos window =>
    rcases map_eq_some_iff.mp hstep with ⟨result, hsend, rfl⟩
    simp [sendChunk_appended hsend]
  | getSndBuffer =>
    rcases map_eq_some_iff.mp hstep with ⟨conn, hget, rfl⟩
    simp [getSndBuffer_appended hget]
  | handleAcks pkt shouldSendBuffers window =>
    rcases ite_none_right_eq_some.mp hstep with ⟨_, hnext⟩
    cases hnext
    exact le_of_eq (congrArg List.length (handleAcks_appended _ _ _ _).symm)
  | _ => grind [step, map_eq_some_iff]

end

section

variable [DecidableEq P]

theorem mem_of_mayExpire {conn : TxConn P} {pkt : Packet P}
    (hexpire : mayExpire cfg conn pkt = true) : pkt ∈ conn.unackQueue := by
  unfold mayExpire at hexpire
  split at hexpire
  · exact of_decide_eq_true hexpire
  · exact mem_of_mem_head? (of_decide_eq_true hexpire)

/-- One step keeps the invariant, and a buffer that leaves the unack queue is
one that the receiver has. -/
theorem step_inv {next : World P} {action : Action P} (h : Inv cfg sent world)
    (hcap : 0 < cfg.queueDepth) (hstep : step cfg world action = some next)
    (hbound : next.tx.appended.length < 2 ^ 32 - 1) :
    (∃ more, Inv cfg (sent ++ more) next) ∧ ∀ pkt ∈ world.tx.unackQueue,
        pkt ∈ next.tx.unackQueue ∨ world.rx.Received pkt.seq := by
  have hsent : sent.length < 2 ^ 32 - 1 :=
    lt_of_le_of_lt (le_trans h.tx.sent_le (step_appended hstep)) hbound
  have hreceiver : ∀ {result : RxConn P × List Ack}, RxStep cfg sent world.rx result →
      ∃ more, Inv cfg (sent ++ more)
        { world with rx := result.1, acks := world.acks ++ result.2 } :=
    fun hrx => ⟨[], (append_nil sent).symm ▸ h.receiver hrx⟩
  have hkeep : ∀ pkt ∈ world.tx.unackQueue, pkt ∈ world.tx.unackQueue ∨ world.rx.Received pkt.seq :=
    fun _ hmem => .inl hmem
  cases action with
  | sendChunk content eos window =>
    rcases map_eq_some_iff.mp hstep with ⟨result, hsend, rfl⟩
    rcases sendChunk_txStep h.tx h.consumedSeq hsend hbound with ⟨more, htx⟩
    exact ⟨⟨more, h.sender htx⟩, htx.gone⟩
  | getSndBuffer =>
    rcases map_eq_some_iff.mp hstep with ⟨conn, hget, rfl⟩
    have htx := getSndBuffer_txStep h.tx h.consumedSeq hget
    rw [← append_nil sent] at htx
    have hnext := h.sender htx
    rw [append_nil world.packets] at hnext
    exact ⟨⟨[], hnext⟩, htx.gone⟩
  | checkExpiration pkt =>
    rcases ite_none_right_eq_some.mp hstep with ⟨hexpire, hnext⟩
    cases hnext
    have hmem := h.tx.unack.subset (mem_of_mayExpire hexpire)
    have htx := TxStep.refl h.tx h.consumedSeq
    have hresent : TxStep cfg world.rx (sent ++ []) world.tx (world.tx, [pkt]) := by
      rw [append_nil]
      exact { htx with
        packets := fun other hother => mem_singleton.mp hother ▸ hmem }
    exact ⟨⟨[], h.sender hresent⟩, hkeep⟩
  | checkDeadlock =>
    rcases ite_none_right_eq_some.mp hstep with ⟨_, hnext⟩
    cases hnext
    exact ⟨⟨[], (append_nil sent).symm ▸ { h with }⟩, hkeep⟩
  | handleAcks pkt shouldSendBuffers window =>
    rcases ite_none_right_eq_some.mp hstep with ⟨hmem, hnext⟩
    cases hnext
    rcases handleAcks_txStep h.tx h.rx hsent h.consumedSeq (h.acks pkt hmem)
      shouldSendBuffers window with ⟨more, htx⟩
    exact ⟨⟨more, h.sender htx⟩, htx.gone⟩
  | handleDataPacket pkt =>
    rcases ite_none_right_eq_some.mp hstep with ⟨hmem, hnext⟩
    cases hnext
    exact ⟨hreceiver (h.handleDataPacket hsent hmem), hkeep⟩
  | handleStatusQuery =>
    rcases ite_none_right_eq_some.mp hstep with ⟨_, hnext⟩
    cases hnext
    exact ⟨hreceiver (handleStatusQuery_rxStep h.rx hsent), hkeep⟩
  | prepareRxConnForRead =>
    rcases map_eq_some_iff.mp hstep with ⟨conn, hread, rfl⟩
    have hnext := hreceiver (prepareRxConnForRead_rxStep h.rx hread)
    rw [append_nil world.acks] at hnext
    exact ⟨hnext, hkeep⟩
  | mlPutRxBufferIFC =>
    rcases map_eq_some_iff.mp hstep with ⟨result, hput, rfl⟩
    have hrx := mlPutRxBufferIFC_rxStep h.rx hcap hsent
      (fun pkt hget => h.tx.sent_numbered hget) hput
    exact ⟨hreceiver hrx, hkeep⟩
  | markUDPConnInactiveIFC =>
    rcases map_eq_some_iff.mp hstep with ⟨conn, hmark, rfl⟩
    have hnext := h.markInactive hcap hmark
    exact ⟨⟨[], (append_nil sent).symm ▸ hnext⟩, hkeep⟩

theorem run_appended (cfg : Config) (actions : List (Action P)) :
    ∀ {start world : World P}, run cfg start actions = some world →
      start.tx.appended.length ≤ world.tx.appended.length := by
  induction actions with
  | nil =>
    intro start world hrun
    cases hrun
    exact Nat.le_refl _
  | cons action rest ih =>
    intro start world hrun
    rcases bind_eq_some_iff.mp hrun with ⟨middle, hstep, hrest⟩
    exact le_trans (step_appended hstep) (ih hrest)

/-- The invariant holds along every run with fewer than 2^32 - 1 packets. -/
theorem run_inv (cfg : Config) (hcap : 0 < cfg.queueDepth) (actions : List (Action P)) :
    ∀ {sent : List (Packet P)} {start world : World P}, Inv cfg sent start →
      run cfg start actions = some world → world.tx.appended.length < 2 ^ 32 - 1 →
      ∃ all, Inv cfg all world := by
  induction actions with
  | nil =>
    intro sent start world h hrun _
    cases hrun
    exact ⟨sent, h⟩
  | cons action rest ih =>
    intro sent start world h hrun hbound
    rcases bind_eq_some_iff.mp hrun with ⟨middle, hstep, hrest⟩
    have hmiddle := lt_of_le_of_lt (run_appended cfg rest hrest) hbound
    rcases (step_inv h hcap hstep hmiddle).1 with ⟨more, hnext⟩
    exact ih hnext hrest hbound

end

section

/-- The receiver has stored this packet or its reader has consumed it. -/
def RxConn.Has (conn : RxConn P) (pkt : Packet P) : Prop :=
  pkt ∈ conn.released ∨ conn.pktQ (place conn.pktQCapacity pkt.seq) = some pkt

theorem Inv.has_of_received (h : Inv cfg sent world) {pkt : Packet P}
    (hmem : pkt ∈ sent) (hreceived : world.rx.Received pkt.seq) : world.rx.Has pkt := by
  rcases h.tx.sent_getElem? hmem with ⟨hpos, hget⟩
  rcases hreceived with hconsumed | ⟨hwindow, hthere⟩
  · left
    rw [h.rx.released_eq]
    apply mem_of_getElem?
    rw [getElem?_take_of_lt (Nat.sub_one_lt_of_le hpos hconsumed)]
    exact hget
  · right
    rcases isSome_iff_exists.mp hthere with ⟨stored, hstored⟩
    have hsame := h.rx.content pkt.seq stored hwindow hstored
    rw [hget] at hsame
    exact hstored.trans hsame.symm

/-- Everything up to the tail of the receiver's queue is there. -/
theorem Inv.has_of_le (h : Inv cfg sent world) {pkt : Packet P} (hmem : pkt ∈ world.tx.appended)
    (hle : pkt.seq ≤ world.rx.consumed + world.rx.pktQSize) : world.rx.Has pkt := by
  rcases getElem?_of_mem hmem with ⟨index, hget⟩
  have hlt : index < sent.length := by
    have hseq := h.tx.numbered index pkt hget
    have htail := h.rx.tail_le
    omega
  rw [h.tx.split, getElem?_append_left hlt] at hget
  exact h.has_of_received (mem_of_getElem? hget) (h.rx.received_of_le hle)

variable [DecidableEq P]

/-- Reliable delivery in order, for every flow control method and queue depth,
whatever the network does. -/
theorem run_delivers (cfg : Config) (hcap : 0 < cfg.queueDepth)
    (actions : List (Action P)) (world : World P)
    (hrun : run cfg (World.initial cfg) actions = some world)
    (hbound : world.tx.appended.length < 2 ^ 32 - 1) :
    world.rx.released = world.tx.appended.take world.rx.released.length ∧
      (∀ pkt, world.rx.pBuff = some pkt → world.tx.appended[world.rx.released.length]? = some pkt) ∧
      (∀ action next, step cfg world action = some next → next.tx.appended.length < 2 ^ 32 - 1 →
        ∀ pkt ∈ world.tx.unackQueue, pkt ∉ next.tx.unackQueue → world.rx.Has pkt) ∧
      world.rx.statCountDropped = 0 := by
  rcases run_inv cfg hcap actions (initial_inv cfg) hrun hbound with ⟨sent, h⟩
  refine ⟨?_, ?_, ?_, h.rx.dropped⟩
  · rw [h.tx.split]
    exact (take_append_of_le_length h.rx.consumed_le).symm ▸ h.rx.released_eq
  · intro pkt hbuff
    exact h.tx.appended_of_sent (h.rx.head_packet hcap (h.rx.buff pkt hbuff)).1
  · intro action next hstep hnext pkt hmem hgone
    rcases (step_inv h hcap hstep hnext).2 pkt hmem with hstill | hreceived
    · exact absurd hstill hgone
    · exact h.has_of_received (h.tx.unack.subset hmem) hreceived

/-- The acks of a whole run never promise too much, the sender stays within the
queue of the receiver, and a receiver that is done has the whole stream. -/
theorem run_acks_sound (cfg : Config) (hcap : 0 < cfg.queueDepth)
    (actions : List (Action P)) (world : World P)
    (hrun : run cfg (World.initial cfg) actions = some world)
    (hbound : world.tx.appended.length < 2 ^ 32 - 1) :
    (∀ ack ∈ world.acks, .ack ∈ ack.flags → ∀ pkt ∈ world.tx.appended, pkt.seq ≤ ack.seq →
        world.rx.Has pkt) ∧
      world.tx.appended.length ≤
        world.rx.released.length + cfg.queueDepth + world.tx.sndQueue.length ∧
      (world.rx.stillActive = false →
        world.tx.eos = true ∧ ∀ pkt ∈ world.tx.appended, world.rx.Has pkt) := by
  rcases run_inv cfg hcap actions (initial_inv cfg) hrun hbound with ⟨sent, h⟩
  refine ⟨?_, ?_, ?_⟩
  · intro ack hack hflag pkt hmem hle
    exact h.has_of_le hmem (hle.trans ((h.acks ack hack).regular hflag))
  · rw [h.tx.split, length_append]
    exact Nat.add_le_add_right h.window _
  · intro hinactive
    rcases h.closed hinactive with ⟨hall, heos⟩
    refine ⟨heos, fun pkt hmem => h.has_of_le hmem ?_⟩
    rcases getElem?_of_mem hmem with ⟨index, hget⟩
    rw [hall, h.tx.numbered index pkt hget]
    exact (List.getElem?_eq_some_iff.mp hget).1

end

namespace UdpDeliveryWitness

def threeSlots : Config := ⟨.loss, 3, 2, 4⟩

/-- The third packet overtakes the second, the first one comes twice, and the
reader consumes all of them. -/
def reordered : List (Action Bool) :=
  [.sendChunk true false 5, .handleDataPacket ⟨1, false, true⟩,
    .handleAcks ⟨[.capacity, .ack, .receiverToSender], 1, 0, []⟩ false 5,
    .getSndBuffer, .sendChunk false false 5, .getSndBuffer,
    .sendChunk true false 5, .handleDataPacket ⟨3, false, true⟩,
    .handleDataPacket ⟨2, false, false⟩, .handleDataPacket ⟨1, false, true⟩,
    .prepareRxConnForRead, .mlPutRxBufferIFC, .prepareRxConnForRead,
    .mlPutRxBufferIFC, .prepareRxConnForRead, .mlPutRxBufferIFC]

theorem reordered_delivers :
    ∃ world, run threeSlots (World.initial threeSlots) reordered = some world ∧
      world.rx.released.length = 3 ∧
      world.rx.released = world.tx.appended.take world.rx.released.length :=
  ⟨_, rfl, rfl, (run_delivers threeSlots (by decide) reordered _ rfl (by decide)).1⟩

theorem reordered_acks_sound : ∃ world,
    run threeSlots (World.initial threeSlots) reordered = some world ∧ world.acks ≠ [] ∧
      world.tx.appended.length ≤
        world.rx.released.length + threeSlots.queueDepth + world.tx.sndQueue.length :=
  ⟨_, rfl, by decide, (run_acks_sound threeSlots (by decide) reordered _ rfl (by decide)).2.1⟩

/-
With a queue of one place every packet goes through the same cycle: it is sent,
stored, read, released and acknowledged.  After 2^32 - 1 of them the number that
the receiver expects next wraps to 0.
-/

def oneSlot : Config := ⟨.capacity, 1, 2, 2⟩

def packet (number : Nat) : Packet Unit := ⟨number, false, ()⟩

variable (count : Nat)

def firstPackets : List (Packet Unit) :=
  (List.range count).map fun index => packet (index + 1)

def ackOf (number : Nat) : Ack :=
  ⟨[.ack, .capacity, .receiverToSender], number, number, []⟩

/-- The sender when `count` packets have gone through. -/
def idleTx : TxConn Unit :=
  { TxConn.initial oneSlot with
    seq := add32 count 1
    consumedSeq := count
    receivedAckSeq := count
    sentSeq := count
    state := if count = 0 then .setupOutgoingConnection else .started
    appended := firstPackets count }

/-- The sender when one more packet is on the way. -/
def busyTx : TxConn Unit :=
  { idleTx count with
    seq := add32 (count + 1) 1
    capacity := 0
    unackQueue := [packet (count + 1)]
    sentSeq := count + 1
    curBuff := false
    appended := firstPackets (count + 1) }

def idleRx : RxConn Unit :=
  { RxConn.initial oneSlot with
    seq := add32 count 1
    extraSeq := count
    released := firstPackets count }

def storedRx : RxConn Unit :=
  { idleRx count with
    pktQ := Function.update (fun _ => none) 0 (some (packet (count + 1)))
    pktQSize := 1
    seq := add32 (count + 1) 1 }

def readRx : RxConn Unit :=
  { storedRx count with pBuff := some (packet (count + 1)) }

/-- The sender when the ack has come and before it takes the buffer back. -/
def ackedTx : TxConn Unit :=
  { idleTx count with curBuff := false, freeList := [packet count] }

def cycle (number : Nat) : List (Action Unit) :=
  [.sendChunk () false 0, .handleDataPacket (packet number),
    .prepareRxConnForRead, .mlPutRxBufferIFC, .handleAcks (ackOf number) false 0, .getSndBuffer]

theorem firstPackets_succ :
    firstPackets (count + 1) = firstPackets count ++ [packet (count + 1)] := by
  simp [firstPackets, range_succ]

section

variable {count : Nat} (hlt : count + 1 < 2 ^ 32)
include hlt

theorem sendChunk_idleTx :
    sendChunk oneSlot (idleTx count) () false 0 = some (busyTx count, [packet (count + 1)]) := by
  have hseq : add32 count 1 = count + 1 := add32_of_lt hlt
  simp [sendChunk, sendBuffers, sendBuffersLoop, idleTx, busyTx, oneSlot, firstPackets_succ, packet,
    hseq]

theorem handleDataPacket_idleRx :
    (handleDataPacket (idleRx count) (packet (count + 1))).1 = storedRx count := by
  have hseq : add32 count 1 = count + 1 := add32_of_lt hlt
  have hhead : sub32 (count + 1) 0 = count + 1 := sub32_of_le (by omega) hlt
  have hself : sub32 (count + 1) (count + 1) = 0 := by
    rw [sub32_of_le (Nat.le_refl _) hlt, Nat.sub_self]
  simp [handleDataPacket, idleRx, storedRx, oneSlot, packet, hseq, hhead, hself, moveTail,
    Nat.mod_one]

theorem mlPutRxBufferIFC_readRx :
    mlPutRxBufferIFC (readRx count) = some (idleRx (count + 1), [ackOf (count + 1)]) := by
  have hprev : sub32 (add32 (count + 1) 1) 1 = count + 1 := by
    rw [sub32, add32]
    omega
  simp [mlPutRxBufferIFC, putRxBufferAndSendAck, readRx, storedRx, idleRx, ackOf, oneSlot, packet,
    firstPackets_succ, hprev]

theorem handleAcks_busyTx :
    handleAcks oneSlot (busyTx count) (ackOf (count + 1)) false 0 = (ackedTx (count + 1), []) := by
  have hgrow : sub32 (count + 1) count = 1 := by
    rw [sub32_of_le (Nat.le_add_right _ _) hlt, Nat.add_sub_cancel_left]
  have hmore : ¬count + 1 ≤ count := Nat.not_succ_le_self count
  have hstate : (if count = 0 then MotionConnState.started
      else if count = 0 then .setupOutgoingConnection else .started) =
      .started := by
    split <;> rfl
  simp [handleAcks, handleAck, handleCapacity, ackUpTo, handleAckedPacket, sendBuffers,
    sendBuffersLoop, ackedTx, busyTx, idleTx, ackOf, oneSlot, packet, hgrow, hmore, hstate]

theorem cycle_run {world : World Unit} (htx : world.tx = idleTx count)
    (hrx : world.rx = idleRx count) :
    ∃ next, run oneSlot world (cycle (count + 1)) = some next ∧
      next.tx = idleTx (count + 1) ∧ next.rx = idleRx (count + 1) ∧
      next.packets = world.packets ++ [packet (count + 1)] := by
  rcases world with ⟨tx, rx, packets, acks, queries⟩
  subst htx hrx
  have hread : prepareRxConnForRead (storedRx count) = some (readRx count) := by
    simp [prepareRxConnForRead, readRx, storedRx, idleRx]
  have hget : getSndBuffer oneSlot (ackedTx (count + 1)) = some (idleTx (count + 1)) := by
    simp [getSndBuffer, ackedTx, idleTx, oneSlot]
  simp [run, cycle, step, sendChunk_idleTx hlt, handleDataPacket_idleRx hlt,
    hread, mlPutRxBufferIFC_readRx hlt, handleAcks_busyTx hlt, hget]

end

theorem idle_reached (hlt : count < 2 ^ 32) :
    ∃ actions world, run oneSlot (World.initial oneSlot) actions = some world ∧
      world.tx = idleTx count ∧ world.rx = idleRx count ∧
      (0 < count → packet 1 ∈ world.packets) := by
  induction count with
  | zero =>
    have hseq : add32 0 1 = 1 := by decide
    refine ⟨[], World.initial oneSlot, rfl, ?_, ?_, fun hpos => absurd hpos (by decide)⟩
    · simp [idleTx, firstPackets, hseq]
    · simp [idleRx, firstPackets, hseq]
  | succ count ih =>
    rcases ih (Nat.lt_of_succ_lt hlt) with
      ⟨actions, world, hrun, htx, hrx, hfirst⟩
    rcases cycle_run hlt htx hrx with ⟨next, hcycle, htx', hrx', hpackets⟩
    refine ⟨actions ++ cycle (count + 1), next, ?_, htx', hrx', fun _ => ?_⟩
    · rw [run, foldlM_append]
      exact bind_eq_some_iff.mpr ⟨world, hrun, hcycle⟩
    · rw [hpackets, mem_append]
      rcases Nat.eq_zero_or_pos count with hzero | hpos
      · exact .inr (by simp [hzero])
      · exact .inl (hfirst hpos)

/-- The 2^32 - 1st packet makes the receiver expect number 0, and a late copy of
the first one then counts as out of range. -/
theorem wrapped_drops : ∃ (actions : List (Action Unit)) (world : World Unit),
      run oneSlot (World.initial oneSlot) actions = some world ∧
      world.tx.appended.length < 2 ^ 32 ∧ world.rx.statCountDropped ≠ 0 := by
  rcases idle_reached (2 ^ 32 - 1) (by decide) with
    ⟨actions, world, hrun, htx, hrx, hfirst⟩
  have hseq : add32 (2 ^ 32 - 1) 1 = 0 := by decide
  have hhead : sub32 0 0 = 0 := by decide
  have hfar : sub32 1 0 = 1 := by decide
  refine ⟨actions ++ [.handleDataPacket (packet 1)], { world with
    rx := (handleDataPacket world.rx (packet 1)).1
    acks := world.acks ++ (handleDataPacket world.rx (packet 1)).2 }, ?_, ?_, ?_⟩
  · rw [run, foldlM_append]
    refine bind_eq_some_iff.mpr ⟨world, hrun, ?_⟩
    simp [step, hfirst (by decide)]
  · rw [htx, idleTx]
    simp [firstPackets]
  · rw [hrx, idleRx, hseq]
    simp [handleDataPacket, oneSlot, packet, hhead, hfar]

end UdpDeliveryWitness

end Greenplum.Udpifc
