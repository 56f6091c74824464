/-
The sending end of a connection: what is outstanding are packets it has sent
and not seen acknowledged, in order, and a buffer is given up only when the
receiver has the packet.
-/
import Greenplum.UdpReceiver

namespace Greenplum.Udpifc

open List

universe u

variable {P : Type u}

/-- The queues of a sender.  `sent` lists the packets that have been sent at
least once; `received` holds of those the receiver has. -/
structure TxOk (cfg : Config) (received : Nat → Prop) (sent : List (Packet P))
    (conn : TxConn P) : Prop where
  split : conn.appended = sent ++ conn.sndQueue
  window : sent.length + conn.capacity = cfg.queueDepth + conn.consumedSeq
  numbered : ∀ index pkt, conn.appended[index]? = some pkt → pkt.seq = index + 1
  seq_eq : conn.seq = conn.appended.length + 1
  unack : conn.unackQueue.Sublist sent
  outstanding : ∀ pkt ∈ sent, pkt ∈ conn.unackQueue ∨ received pkt.seq
  eos_last : ∀ index pkt, conn.appended[index]? = some pkt → pkt.eos = true →
    index + 1 = conn.appended.length ∧ conn.eos = true

theorem initial_txOk (cfg : Config) (received : Nat → Prop) :
    TxOk cfg received ([] : List (Packet P)) (TxConn.initial cfg) where
  split := rfl
  window := by simp
  numbered := by simp
  seq_eq := rfl
  unack := List.Sublist.slnil
  outstanding := by simp
  eos_last := by simp

section

variable {cfg : Config} {received : Nat → Prop} {sent : List (Packet P)}
  {conn : TxConn P} {index : Nat} {pkt : Packet P}

variable (h : TxOk cfg received sent conn)

include h

theorem TxOk.appended_of_sent (hget : sent[index]? = some pkt) :
    conn.appended[index]? = some pkt := by
  rw [h.split, List.getElem?_append_left (List.getElem?_eq_some_iff.mp hget).1]
  exact hget

theorem TxOk.sent_numbered (hget : sent[index]? = some pkt) : pkt.seq = index + 1 :=
  h.numbered index pkt (h.appended_of_sent hget)

theorem TxOk.sent_getElem? (hmem : pkt ∈ sent) : 0 < pkt.seq ∧ sent[pkt.seq - 1]? = some pkt := by
  rcases mem_iff_getElem?.mp hmem with ⟨index, hget⟩
  have hseq := h.sent_numbered hget
  rw [hseq, Nat.add_sub_cancel]
  exact ⟨Nat.succ_pos _, hget⟩

theorem TxOk.appended_sorted : conn.appended.Pairwise fun left right => left.seq < right.seq := by
  rw [pairwise_iff_getElem]
  intro left right hleft hright hlt
  rw [h.numbered left _ (getElem?_eq_getElem hleft),
    h.numbered right _ (getElem?_eq_getElem hright)]
  exact Nat.succ_lt_succ hlt

theorem TxOk.unack_sorted : conn.unackQueue.Pairwise fun left right => left.seq < right.seq := by
  have hsorted := h.appended_sorted
  rw [h.split] at hsorted
  exact (pairwise_append.mp hsorted).1.sublist h.unack

theorem TxOk.sent_le : sent.length ≤ conn.appended.length := by
  rw [h.split, length_append]
  exact Nat.le_add_right _ _

theorem TxOk.mono {later : Nat → Prop}
    (hlater : ∀ seq, received seq → later seq) : TxOk cfg later sent conn :=
  { h with
    outstanding := fun pkt hmem => (h.outstanding pkt hmem).imp_right (hlater pkt.seq) }

end

section

variable {cfg : Config} {received : Nat → Prop} {sent : List (Packet P)}
  {before after : TxConn P} {seq : Nat}

/-- What the handling of acks does not touch. -/
def TxConn.withoutAcks (conn : TxConn P) : TxConn P :=
  { conn with
    unackQueue := []
    receivedAckSeq := 0
    state := .started
    freeList := []
    disorderLastSeq := 0
    disorderTimes := 0 }

/-- Buffers were given up whose packets the receiver has. -/
structure Acked (received : Nat → Prop) (before after : TxConn P) : Prop where
  unack : after.unackQueue.Sublist before.unackQueue
  gone : ∀ pkt ∈ before.unackQueue, pkt ∈ after.unackQueue ∨ received pkt.seq
  frame : after.withoutAcks = before.withoutAcks

theorem Acked.refl (conn : TxConn P) : Acked received conn conn :=
  ⟨List.Sublist.refl _, fun _ hmem => .inl hmem, rfl⟩

theorem Acked.trans {middle : TxConn P} (hleft : Acked received before middle)
    (hright : Acked received middle after) : Acked received before after where
  unack := hright.unack.trans hleft.unack
  gone pkt hmem := by
    rcases hleft.gone pkt hmem with hstill | hreceived
    · exact hright.gone pkt hstill
    · exact .inr hreceived
  frame := hright.frame.trans hleft.frame

theorem TxOk.acked (h : TxOk cfg received sent before)
    (hacked : Acked received before after) : TxOk cfg received sent after := by
  have hframe := hacked.frame
  simp only [TxConn.withoutAcks, TxConn.mk.injEq, true_and] at hframe
  rcases hframe with
    ⟨hseq, heos, hqueue, hcapacity, hconsumed, _, _, _, happended⟩
  constructor
  case split => rw [happended, hqueue, h.split]
  case window => rw [hcapacity, hconsumed, h.window]
  case numbered => exact happended ▸ h.numbered
  case seq_eq => rw [hseq, happended, h.seq_eq]
  case unack => exact hacked.unack.trans h.unack
  case outstanding =>
    intro pkt hmem
    rcases h.outstanding pkt hmem with hstill | hreceived
    · exact hacked.gone pkt hstill
    · exact .inr hreceived
  case eos_last => rw [happended, heos]; exact h.eos_last

theorem handleAckedPacket_acked (conn : TxConn P) {buf : Packet P} (hreceived : received buf.seq) :
    Acked received conn (handleAckedPacket conn buf) where
  unack := filter_sublist
  gone := by
    intro pkt hmem
    by_cases heq : pkt.seq = buf.seq
    · exact .inr (heq ▸ hreceived)
    · exact .inl (mem_filter.mpr ⟨hmem, by simpa using heq⟩)
  frame := rfl

theorem ackUpTo_acked (hreceived : ∀ other ≤ seq, received other) (bufs : List (Packet P)) :
    ∀ conn, Acked received conn (ackUpTo seq bufs conn) := by
  induction bufs with
  | nil => exact fun conn => Acked.refl conn
  | cons buf rest ih =>
    intro conn
    rw [ackUpTo]
    split
    case isTrue hle =>
      exact (handleAckedPacket_acked conn (hreceived _ hle)).trans (ih _)
    case isFalse => exact Acked.refl conn

theorem ackSingle_acked (hreceived : received seq) (bufs : List (Packet P)) :
    ∀ conn, Acked received conn (ackSingle seq bufs conn) := by
  induction bufs with
  | nil => exact fun conn => Acked.refl conn
  | cons buf rest ih =>
    intro conn
    rw [ackSingle]
    split
    case isTrue =>
      split
      case isTrue heq =>
        exact handleAckedPacket_acked conn (heq ▸ hreceived)
      case isFalse => exact ih conn
    case isFalse => exact Acked.refl conn

theorem handleAckForDuplicatePkt_acked (conn : TxConn P) {pkt : Ack}
    (hextra : ∀ other ≤ pkt.extraSeq, received other) (hseq : received pkt.seq) :
    Acked received conn (handleAckForDuplicatePkt conn pkt) := by
  unfold handleAckForDuplicatePkt
  split
  case isTrue => exact Acked.refl conn
  case isFalse =>
    exact (ackUpTo_acked hextra conn.unackQueue conn).trans (ackSingle_acked hseq _ _)

/-- The loop over the outstanding buffers and the numbers reported lost, both
in order: a buffer before the next lost number has been received. -/
theorem disorderLoop_acked (hseq : received seq) (fuel : Nat) :
    ∀ (bufs : List (Packet P)) (lost : List Nat) (conn : TxConn P),
      bufs.Pairwise (fun left right => left.seq < right.seq) → lost.Pairwise (· < ·) →
      (∀ buf ∈ bufs, buf.seq ∉ lost → (∃ number ∈ lost, buf.seq < number) → received buf.seq) →
      Acked received conn (disorderLoop seq fuel bufs lost conn).1 ∧
        ∀ pkt ∈ (disorderLoop seq fuel bufs lost conn).2, pkt ∈ bufs := by
  induction fuel with
  | zero =>
    intro bufs lost conn _ _ _
    rw [disorderLoop]
    · exact ⟨Acked.refl conn, by simp⟩
    · simp
  | succ fuel ih =>
    intro bufs lost conn hbufs hlost hbetween
    rcases bufs with _ | ⟨buf, rest⟩
    · exact ⟨Acked.refl conn, by simp [disorderLoop]⟩
    rcases lost with _ | ⟨lostSeq, lost⟩
    · exact ⟨Acked.refl conn, by simp [disorderLoop]⟩
    have hrest := pairwise_cons.mp hbufs
    have hnumbers := pairwise_cons.mp hlost
    rw [disorderLoop]
    split
    case isFalse => exact ⟨Acked.refl conn, by simp⟩
    case isTrue =>
      split
      case isTrue heq =>
        exact ⟨handleAckedPacket_acked conn (heq ▸ hseq), by simp⟩
      case isFalse =>
        split
        case isTrue heq =>
          -- a lost packet is resent and stays outstanding
          have hstep := ih rest lost conn hrest.2 hnumbers.2
            fun other hmem hnot hex => by
              refine hbetween other (mem_cons_of_mem _ hmem) ?_
                (hex.imp fun _ h => ⟨mem_cons_of_mem _ h.1, h.2⟩)
              rw [mem_cons, not_or]
              have hlt := hrest.1 other hmem
              exact ⟨by omega, hnot⟩
          refine ⟨hstep.1, fun pkt hmem => ?_⟩
          rcases mem_cons.mp hmem with rfl | hlater
          · exact mem_cons_self
          · exact mem_cons_of_mem _ (hstep.2 pkt hlater)
        case isFalse hne =>
          split
          case isTrue hlt =>
            have hreceived : received buf.seq := by
              refine hbetween buf mem_cons_self ?_ ⟨lostSeq, mem_cons_self, hlt⟩
              rw [mem_cons, not_or]
              exact ⟨hne, fun hmem => by
                have hafter := hnumbers.1 _ hmem
                omega⟩
            have hstep := ih rest (lostSeq :: lost) (handleAckedPacket conn buf) hrest.2 hlost
              fun other hmem => hbetween other (mem_cons_of_mem _ hmem)
            exact ⟨(handleAckedPacket_acked conn hreceived).trans hstep.1,
              fun pkt hmem => mem_cons_of_mem _ (hstep.2 pkt hmem)⟩
          case isFalse hge =>
            -- the lost number belongs to a packet acknowledged before
            apply ih (buf :: rest) lost conn hbufs hnumbers.2
            intro other hmem hnot hex
            refine hbetween other hmem ?_ (hex.imp fun _ h => ⟨mem_cons_of_mem _ h.1, h.2⟩)
            rw [mem_cons, not_or]
            refine ⟨?_, hnot⟩
            rcases mem_cons.mp hmem with rfl | hlater
            · exact hne
            · have hafter := hrest.1 other hlater
              omega

end

section

variable {cfg : Config} {rx : RxConn P} {sent : List (Packet P)}
  {conn : TxConn P} {middle after : TxConn P} {pkts : List (Packet P)}
  {received : Nat → Prop} {pkt : Ack}

/-- What one call does to a sender whose receiver is in state `rx`.  The
packets sent so far become `sent`. -/
structure TxStep (cfg : Config) (rx : RxConn P) (sent : List (Packet P))
    (before : TxConn P) (result : TxConn P × List (Packet P)) : Prop where
  ok : TxOk cfg rx.Received sent result.1
  consumed : result.1.consumedSeq ≤ rx.consumed
  packets : ∀ pkt ∈ result.2, pkt ∈ sent
  gone : ∀ pkt ∈ before.unackQueue, pkt ∈ result.1.unackQueue ∨ rx.Received pkt.seq
  eos : before.eos = true → result.1.eos = true ∧ result.1.appended = before.appended

theorem TxStep.thenAcked (h : TxStep cfg rx sent conn (middle, pkts))
    (hacked : Acked rx.Received middle after) : TxStep cfg rx sent conn (after, pkts) := by
  have hframe := hacked.frame
  simp only [TxConn.withoutAcks, TxConn.mk.injEq, true_and] at hframe
  rcases hframe with ⟨_, heos, _, _, hseq, _, _, _, happended⟩
  constructor
  case ok => exact h.ok.acked hacked
  case consumed => exact hseq ▸ h.consumed
  case packets => exact h.packets
  case gone =>
    intro pkt hmem
    rcases h.gone pkt hmem with hstill | hreceived
    · exact hacked.gone pkt hstill
    · exact .inr hreceived
  case eos =>
    intro hbefore
    exact ⟨heos.trans (h.eos hbefore).1, happended.trans (h.eos hbefore).2⟩

section

variable (h : TxOk cfg rx.Received sent conn) (hconsumed : conn.consumedSeq ≤ rx.consumed)

include h hconsumed

theorem TxStep.refl : TxStep cfg rx sent conn (conn, []) :=
  ⟨h, hconsumed, by simp, fun _ hmem => .inl hmem, fun heos => ⟨heos, rfl⟩⟩

theorem TxStep.acked (hacked : Acked rx.Received conn after)
    (hpkts : ∀ pkt ∈ pkts, pkt ∈ conn.unackQueue) : TxStep cfg rx sent conn (after, pkts) := by
  have hstep := (TxStep.refl h hconsumed).thenAcked hacked
  exact { hstep with
    packets := fun pkt hmem => h.unack.subset (hpkts pkt hmem) }

end

/-- The next packets of the send queue have been sent. -/
structure Sends (before after : TxConn P) (pkts : List (Packet P)) : Prop where
  queue : before.sndQueue = pkts ++ after.sndQueue
  unack : after.unackQueue = before.unackQueue ++ pkts
  capacity : before.capacity = after.capacity + pkts.length
  consumedSeq : after.consumedSeq = before.consumedSeq
  seq : after.seq = before.seq
  eos : after.eos = before.eos
  appended : after.appended = before.appended

theorem Sends.refl (conn : TxConn P) : Sends conn conn [] :=
  ⟨rfl, (append_nil _).symm, rfl, rfl, rfl, rfl, rfl⟩

/-- The loop sends no more than the receiver has room for. -/
theorem sendBuffersLoop_sends (cfg : Config) (queue : List (Packet P)) :
    ∀ (window : Nat) (conn : TxConn P), conn.sndQueue = queue →
      Sends conn (sendBuffersLoop cfg queue window conn).1
        (sendBuffersLoop cfg queue window conn).2 := by
  induction queue with
  | nil => exact fun window conn _ => Sends.refl conn
  | cons buf rest ih =>
    intro window conn hqueue
    rw [sendBuffersLoop]
    split
    case isTrue => exact Sends.refl conn
    case isFalse hroom =>
      split
      case isTrue => exact Sends.refl conn
      case isFalse =>
        split
        case isTrue => exact Sends.refl conn
        case isFalse =>
          have hrest := ih (if conn.unackQueue ≠ [] then window - 1 else window)
            { conn with
              sndQueue := rest
              capacity := conn.capacity - 1
              unackQueue := conn.unackQueue ++ [buf]
              sentSeq := buf.seq } rfl
          dsimp only
          have hleft : conn.capacity - 1 = _ := hrest.capacity
          exact { hrest with
            queue := by rw [hqueue, cons_append, ← hrest.queue]
            unack := by rw [hrest.unack, append_assoc, singleton_append]
            capacity := by rw [length_cons]; omega }

theorem sendBuffers_sends (cfg : Config) (window : Nat) (conn : TxConn P) :
    Sends conn (sendBuffers cfg window conn).1 (sendBuffers cfg window conn).2 :=
  sendBuffersLoop_sends cfg conn.sndQueue window conn rfl

theorem TxOk.sends (h : TxOk cfg received sent conn) (hsends : Sends conn after pkts) :
    TxOk cfg received (sent ++ pkts) after where
  split := by
    rw [hsends.appended, h.split, hsends.queue, append_assoc]
  window := by
    have hwindow := h.window
    have hcapacity := hsends.capacity
    rw [length_append, hsends.consumedSeq]
    omega
  numbered := hsends.appended ▸ h.numbered
  seq_eq := by rw [hsends.seq, hsends.appended, h.seq_eq]
  unack := hsends.unack ▸ h.unack.append_right pkts
  outstanding := by
    intro pkt hmem
    rw [hsends.unack, mem_append]
    rcases mem_append.mp hmem with hold | hnew
    · exact (h.outstanding pkt hold).imp_left Or.inl
    · exact .inl (.inr hnew)
  eos_last := by
    rw [hsends.appended, hsends.eos]
    exact h.eos_last

theorem TxStep.sendBuffers (h : TxStep cfg rx sent conn (middle, pkts)) (window : Nat) :
    ∃ more, TxStep cfg rx (sent ++ more) conn ((Udpifc.sendBuffers cfg window middle).1,
        pkts ++ (Udpifc.sendBuffers cfg window middle).2) := by
  have hsends := sendBuffers_sends cfg window middle
  refine ⟨(Udpifc.sendBuffers cfg window middle).2, ?_⟩
  constructor
  case ok => exact h.ok.sends hsends
  case consumed => exact hsends.consumedSeq ▸ h.consumed
  case packets =>
    intro pkt hmem
    rw [mem_append] at hmem ⊢
    exact hmem.imp_left (h.packets pkt)
  case gone =>
    intro pkt hmem
    refine (h.gone pkt hmem).imp_left fun hstill => ?_
    exact hsends.unack ▸ mem_append_left _ hstill
  case eos =>
    intro hbefore
    exact ⟨hsends.eos.trans (h.eos hbefore).1, hsends.appended.trans (h.eos hbefore).2⟩

section

variable (h : TxOk cfg rx.Received sent conn)

include h

theorem handleAckForDisorderPkt_txStep
    (hconsumed : conn.consumedSeq ≤ rx.consumed) (hseq : rx.Received pkt.seq)
    (hsorted : pkt.lost.Pairwise (· < ·))
    (hbetween : ∀ seq, seq ∉ pkt.lost → (∃ lost ∈ pkt.lost, seq < lost) → rx.Received seq) :
    TxStep cfg rx sent conn (handleAckForDisorderPkt conn pkt) := by
  have hcounted : ∀ last times, Acked rx.Received conn
      { conn with disorderLastSeq := last, disorderTimes := times } :=
    fun _ _ => ⟨List.Sublist.refl _, fun _ hmem => .inl hmem, rfl⟩
  unfold handleAckForDisorderPkt
  split
  case isTrue => exact TxStep.acked h hconsumed (hcounted _ _) (by simp)
  case isFalse =>
    dsimp only
    split
    case isTrue => exact TxStep.acked h hconsumed (hcounted _ _) (by simp)
    case isFalse =>
      have hloop := disorderLoop_acked hseq
        (conn.unackQueue.length + pkt.lost.length + 1) conn.unackQueue pkt.lost
        { conn with disorderTimes := add32 conn.disorderTimes 1 }
        h.unack_sorted hsorted fun buf _ => hbetween buf.seq
      exact TxStep.acked h hconsumed ((hcounted _ _).trans hloop.1) hloop.2

/-- The receiver has consumed more packets: as many more may be sent. -/
theorem handleCapacity_txStep
    (hlt : rx.consumed < 2 ^ 32) (hconsumed : conn.consumedSeq ≤ rx.consumed)
    (hpkt : AckOk rx pkt) : TxStep cfg rx sent conn (handleCapacity conn pkt, []) := by
  unfold handleCapacity
  split
  case isTrue hmore =>
    have hextra := hpkt.capacity hmore.1
    have hgrow : sub32 pkt.extraSeq conn.consumedSeq = pkt.extraSeq - conn.consumedSeq :=
      sub32_of_le (le_of_lt hmore.2) (lt_of_le_of_lt hextra hlt)
    rw [hgrow]
    have hwindow : sent.length + (conn.capacity + (pkt.extraSeq - conn.consumedSeq)) =
          cfg.queueDepth + pkt.extraSeq := by
      have hbefore := h.window
      omega
    exact ⟨{ h with window := hwindow }, hextra, by simp,
      fun _ hmem => .inl hmem, fun heos => ⟨heos, rfl⟩⟩
  case isFalse => exact TxStep.refl h hconsumed

section

variable (hrx : RxOk cfg sent rx) (hbound : sent.length < 2 ^ 32 - 1)
  (hconsumed : conn.consumedSeq ≤ rx.consumed) (hpkt : AckOk rx pkt)

include hrx hbound hconsumed hpkt

theorem handleAck_txStep : TxStep cfg rx sent conn (handleAck conn pkt) := by
  unfold handleAck
  split
  case isTrue hnak => exact absurd hnak hpkt.not_nak
  case isFalse =>
    split
    case isTrue hduplicate =>
      rcases hpkt.duplicate hduplicate.2 with ⟨hextra, hseq⟩
      exact TxStep.acked h hconsumed (handleAckForDuplicatePkt_acked conn
          (fun other hle => hrx.received_of_le (le_trans hle hextra)) hseq)
        (by simp)
    case isFalse =>
      split
      case isTrue hdisorder =>
        rcases hpkt.disorder hdisorder.2 with ⟨hseq, hsorted, hbetween⟩
        exact handleAckForDisorderPkt_txStep h hconsumed hseq hsorted hbetween
      case isFalse =>
        have hstep := handleCapacity_txStep h
          (lt_of_le_of_lt hrx.consumed_le (by omega)) hconsumed hpkt
        dsimp only
        split
        case isTrue => exact hstep
        case isFalse =>
          split
          case isTrue hack =>
            exact hstep.thenAcked (ackUpTo_acked (fun other hle =>
              hrx.received_of_le (le_trans hle (hpkt.regular hack))) _ _)
          case isFalse => exact hstep

theorem handleAcks_txStep (shouldSendBuffers : Bool) (window : Nat) :
    ∃ more, TxStep cfg rx (sent ++ more) conn
      (handleAcks cfg conn pkt shouldSendBuffers window) := by
  have hstep := handleAck_txStep h hrx hbound hconsumed hpkt
  unfold handleAcks
  dsimp only
  split
  case isTrue => exact hstep.sendBuffers window
  case isFalse => exact ⟨[], by rwa [append_nil]⟩

end

end

theorem TxOk.append (h : TxOk cfg received sent conn) (hopen : conn.eos = false)
    (content : P) (eos : Bool) :
    TxOk cfg received sent { conn with
      eos := eos
      seq := conn.appended.length + 2
      sndQueue := conn.sndQueue ++ [⟨conn.seq, eos, content⟩]
      curBuff := false
      appended := conn.appended ++ [⟨conn.seq, eos, content⟩] } := by
  have hcases : ∀ {index : Nat} {pkt : Packet P},
      (conn.appended ++ [⟨conn.seq, eos, content⟩])[index]? = some pkt →
      conn.appended[index]? = some pkt ∨
        (index = conn.appended.length ∧ pkt = ⟨conn.seq, eos, content⟩) := by
    intro index pkt hget
    rw [getElem?_append] at hget
    split at hget
    case isTrue => exact .inl hget
    case isFalse hge =>
      rw [getElem?_singleton] at hget
      split at hget
      case isTrue hzero => exact .inr ⟨by omega, (Option.some.inj hget).symm⟩
      case isFalse => cases hget
  constructor
  case split =>
    rw [h.split, append_assoc]
  case window => exact h.window
  case numbered =>
    intro index pkt hget
    rcases hcases hget with hold | ⟨rfl, rfl⟩
    · exact h.numbered index pkt hold
    · exact h.seq_eq
  case seq_eq =>
    rw [length_append]
    rfl
  case unack => exact h.unack
  case outstanding => exact h.outstanding
  case eos_last =>
    intro index pkt hget heos
    rcases hcases hget with hold | ⟨rfl, rfl⟩
    · have hclosed := (h.eos_last index pkt hold heos).2
      rw [hopen] at hclosed
      cases hclosed
    · refine ⟨?_, heos⟩
      rw [length_append]
      rfl

section

variable (h : TxOk cfg rx.Received sent conn) (hconsumed : conn.consumedSeq ≤ rx.consumed)

include h hconsumed

theorem sendChunk_txStep {content : P} {eos : Bool} {window : Nat}
    {result : TxConn P × List (Packet P)}
    (hsend : sendChunk cfg conn content eos window = some result)
    (hbound : result.1.appended.length < 2 ^ 32 - 1) :
    ∃ more, TxStep cfg rx (sent ++ more) conn result := by
  unfold sendChunk at hsend
  obtain ⟨hopen, hsend⟩ := Option.ite_none_right_eq_some.mp hsend
  cases hsend
  rw [(sendBuffers_sends cfg window _).appended, length_append] at hbound
  have hnext : add32 conn.seq 1 = conn.appended.length + 2 := by
    rw [h.seq_eq]
    exact add32_of_lt (lt_of_lt_of_le (Nat.succ_lt_succ hbound) (by decide))
  have hstep : TxStep cfg rx sent conn ({ conn with
      eos := eos
      seq := add32 conn.seq 1
      sndQueue := conn.sndQueue ++ [⟨conn.seq, eos, content⟩]
      curBuff := false
      appended := conn.appended ++ [⟨conn.seq, eos, content⟩] }, []) := by
    refine ⟨?_, hconsumed, by simp, fun _ hmem => .inl hmem, ?_⟩
    · rw [hnext]
      exact h.append hopen.2 content eos
    · exact fun heos => absurd (heos.symm.trans hopen.2) (by decide)
  exact hstep.sendBuffers window

theorem getSndBuffer_txStep (hget : getSndBuffer cfg conn = some after) :
    TxStep cfg rx sent conn (after, []) := by
  have hstep : ∀ freeList count, TxStep cfg rx sent conn
      ({ conn with curBuff := true, freeList := freeList, count := count }, []) :=
    fun _ _ => ⟨{ h with }, hconsumed, by simp, fun _ hmem => .inl hmem, fun heos => ⟨heos, rfl⟩⟩
  unfold getSndBuffer at hget
  obtain ⟨_, hget⟩ := Option.ite_none_left_eq_some.mp hget
  obtain ⟨_, hget⟩ := Option.ite_none_left_eq_some.mp hget
  split at hget
  case h_1 =>
    cases hget
    exact hstep _ _
  case h_2 =>
    split at hget
    case isTrue =>
      cases hget
      exact hstep _ _
    case isFalse => cases hget

end

end

end Greenplum.Udpifc
