/-
The receiving end of a connection: its ring holds packets of the sender at
their places, what the reader gets are the first packets in order, and its acks
promise no more than it has.
-/
import Greenplum.RingWindow
import Greenplum.UdpInterconnect

namespace Greenplum.Udpifc

open RingWindow List Function Nat

universe u

variable {P : Type u} {left right : Nat} {before after : RxConn P}

theorem add32_of_lt (h : left + right < 2 ^ 32) :
    add32 left right = left + right := mod_eq_of_lt h

theorem sub32_of_le (hle : right ≤ left) (hlt : left < 2 ^ 32) :
    sub32 left right = left - right := by
  rw [sub32, Nat.sub_add_comm hle, Nat.add_mod_right]
  exact mod_eq_of_lt (lt_of_le_of_lt (sub_le _ _) hlt)

/-- The number of packets that the reader has released. -/
def RxConn.consumed (conn : RxConn P) : Nat := conn.released.length

/-- The packet with this number is stored or was consumed. -/
def RxConn.Received (conn : RxConn P) (seq : Nat) : Prop :=
  seq ≤ conn.consumed ∨ (InWindow conn.consumed conn.pktQCapacity seq ∧
      (ringGet conn.pktQCapacity conn.pktQ seq).isSome)

section

variable (cfg : Config) (sent : List (Packet P)) (conn : RxConn P)

/-- The queue of a receiver whose tail may still have to be moved. -/
structure RxCore : Prop where
  capacity_eq : conn.pktQCapacity = cfg.queueDepth
  released_eq : conn.released = sent.take conn.consumed
  head_eq : conn.pktQHead = conn.consumed % conn.pktQCapacity
  tail_eq : conn.pktQTail = (conn.consumed + conn.pktQSize) % conn.pktQCapacity
  size_le : conn.pktQSize ≤ conn.pktQCapacity
  seq_eq : conn.seq = conn.consumed + conn.pktQSize + 1
  extraSeq_eq : conn.extraSeq = conn.consumed
  content : ∀ seq pkt, InWindow conn.consumed conn.pktQCapacity seq →
    ringGet conn.pktQCapacity conn.pktQ seq = some pkt → sent[seq - 1]? = some pkt
  filled : ∀ seq, conn.consumed < seq → seq ≤ conn.consumed + conn.pktQSize →
    (ringGet conn.pktQCapacity conn.pktQ seq).isSome
  buff : ∀ pkt, conn.pBuff = some pkt → conn.pktQ conn.pktQHead = some pkt
  flags_plain : ∀ flag ∈ conn.flags, flag = .receiverToSender ∨ flag = .eos
  dropped : conn.statCountDropped = 0

/-- The queue of a receiver between two packets. -/
structure RxOk : Prop
    extends RxCore cfg sent conn where
  gap : conn.pktQSize < conn.pktQCapacity → ringGet conn.pktQCapacity conn.pktQ
      (conn.consumed + conn.pktQSize + 1) = none

theorem initial_rxOk : RxOk cfg ([] : List (Packet P)) (RxConn.initial cfg) where
  capacity_eq := rfl
  released_eq := rfl
  head_eq := by simp [RxConn.consumed]
  tail_eq := by simp [RxConn.consumed]
  size_le := zero_le _
  seq_eq := rfl
  extraSeq_eq := rfl
  content := by simp [ringGet]
  filled seq habove hbelow := absurd hbelow (not_le_of_gt habove)
  gap _ := rfl
  buff := by simp
  flags_plain := by simp
  dropped := rfl

end

section

variable {cfg : Config} {sent : List (Packet P)} {conn : RxConn P}

section

variable (h : RxCore cfg sent conn)

include h

theorem RxCore.consumed_le : conn.consumed ≤ sent.length := by
  have hlength := congrArg List.length h.released_eq
  rw [length_take] at hlength
  have hconsumed : conn.consumed = conn.released.length := rfl
  omega

theorem RxCore.inWindow_of_filled {seq : Nat} (habove : conn.consumed < seq)
    (hbelow : seq ≤ conn.consumed + conn.pktQSize) : InWindow conn.consumed conn.pktQCapacity seq :=
  ⟨habove, Nat.le_trans hbelow (Nat.add_le_add_left h.size_le _)⟩

/-- Everything up to the tail of the queue has been received. -/
theorem RxCore.received_of_le {seq : Nat}
    (hle : seq ≤ conn.consumed + conn.pktQSize) : conn.Received seq := by
  rcases lt_or_ge conn.consumed seq with habove | hbelow
  · exact .inr ⟨h.inWindow_of_filled habove hle, h.filled seq habove hle⟩
  · exact .inl hbelow

theorem RxCore.tail_le : conn.consumed + conn.pktQSize ≤ sent.length := by
  rcases Nat.eq_zero_or_pos conn.pktQSize with hzero | hpos
  · rw [hzero]
    exact h.consumed_le
  · have habove : conn.consumed < conn.consumed + conn.pktQSize := Nat.lt_add_of_pos_right hpos
    rcases Option.isSome_iff_exists.mp (h.filled _ habove (le_refl _)) with
      ⟨pkt, hget⟩
    have hsent := h.content _ pkt (h.inWindow_of_filled habove (le_refl _)) hget
    have hlt := (List.getElem?_eq_some_iff.mp hsent).1
    omega

end

/-- The packet at the head of the queue is the next one of the sender. -/
theorem RxOk.head_packet (h : RxOk cfg sent conn) (hcap : 0 < cfg.queueDepth)
    {pkt : Packet P} (hhead : conn.pktQ conn.pktQHead = some pkt) :
    sent[conn.consumed]? = some pkt ∧ 0 < conn.pktQSize := by
  have hcap' : 0 < conn.pktQCapacity := h.capacity_eq ▸ hcap
  have hget : ringGet conn.pktQCapacity conn.pktQ (conn.consumed + 1) = some pkt := by
    rw [ringGet, place_succ, ← h.head_eq]
    exact hhead
  constructor
  · exact h.content _ pkt ⟨Nat.lt_succ_self _, Nat.add_le_add_left hcap' _⟩ hget
  · by_contra hempty
    have hzero : conn.pktQSize = 0 := Nat.eq_zero_of_not_pos hempty
    have hgap := h.gap (hzero ▸ hcap')
    rw [hzero, add_zero, hget] at hgap
    cases hgap

theorem RxOk.mono (h : RxOk cfg sent conn) {rest : List (Packet P)} :
    RxOk cfg (sent ++ rest) conn :=
  { h with
    released_eq := by
      rw [take_append_of_le_length h.consumed_le]
      exact h.released_eq
    content := fun seq pkt hwindow hget => by
      have hsent := h.content seq pkt hwindow hget
      rw [List.getElem?_append_left (List.getElem?_eq_some_iff.mp hsent).1]
      exact hsent }

end

/-- A later state of the receiver has all packets of the earlier one. -/
structure Grows (before after : RxConn P) : Prop where
  received : ∀ seq, before.Received seq → after.Received seq
  consumed : before.consumed ≤ after.consumed
  tail : before.consumed + before.pktQSize ≤ after.consumed + after.pktQSize

theorem Grows.refl (conn : RxConn P) : Grows conn conn :=
  ⟨fun _ h => h, le_refl _, le_refl _⟩

theorem Grows.trans {middle : RxConn P} (hleft : Grows before middle)
    (hright : Grows middle after) : Grows before after :=
  ⟨fun seq h => hright.received seq (hleft.received seq h),
    le_trans hleft.consumed hright.consumed, le_trans hleft.tail hright.tail⟩

/-- What an ack may promise to the sender. -/
structure AckOk (conn : RxConn P) (ack : Ack) : Prop where
  not_nak : .nak ∉ ack.flags
  capacity : .capacity ∈ ack.flags → ack.extraSeq ≤ conn.consumed
  regular : .ack ∈ ack.flags → ack.seq ≤ conn.consumed + conn.pktQSize
  duplicate : .duplicate ∈ ack.flags →
    ack.extraSeq ≤ conn.consumed + conn.pktQSize ∧ conn.Received ack.seq
  disorder : .disorder ∈ ack.flags → conn.Received ack.seq ∧ ack.lost.Pairwise (· < ·) ∧
    ∀ seq, seq ∉ ack.lost → (∃ lost ∈ ack.lost, seq < lost) → conn.Received seq

theorem AckOk.mono {ack : Ack} (h : AckOk before ack) (hgrows : Grows before after) :
    AckOk after ack where
  not_nak := h.not_nak
  capacity hflag := le_trans (h.capacity hflag) hgrows.consumed
  regular hflag := le_trans (h.regular hflag) hgrows.tail
  duplicate hflag :=
    ⟨le_trans (h.duplicate hflag).1 hgrows.tail, hgrows.received _ (h.duplicate hflag).2⟩
  disorder hflag := by
    rcases h.disorder hflag with ⟨hseq, hsorted, hrest⟩
    exact ⟨hgrows.received _ hseq, hsorted,
      fun seq hmem hlost => hgrows.received _ (hrest seq hmem hlost)⟩

section

variable {cfg : Config} {sent : List (Packet P)} {conn : RxConn P}

section

variable (h : RxCore cfg sent conn)

include h

theorem RxCore.seq_lt (hbound : sent.length < 2 ^ 32 - 1) : conn.seq < 2 ^ 32 := by
  have hle := h.tail_le
  rw [h.seq_eq]
  omega

theorem RxCore.prev_eq (hbound : sent.length < 2 ^ 32 - 1) :
    sub32 conn.seq 1 = conn.consumed + conn.pktQSize := by
  rw [sub32_of_le (by rw [h.seq_eq]; omega) (h.seq_lt hbound), h.seq_eq]
  rfl

/-- A cumulative ack with the consumed packets. -/
theorem RxCore.ackOk_regular {ack : Ack}
    (hflags : ∀ flag ∈ ack.flags, flag = .ack ∨ flag = .capacity ∨ flag ∈ conn.flags)
    (hseq : ack.seq ≤ conn.consumed + conn.pktQSize) (hextra : ack.extraSeq ≤ conn.consumed) :
    AckOk conn ack := by
  have hnot : ∀ flag ∈ ack.flags, flag ≠ .nak ∧ flag ≠ .duplicate ∧ flag ≠ .disorder := by
    intro flag hmem
    rcases hflags flag hmem with rfl | rfl | hplain
    · simp
    · simp
    · rcases h.flags_plain flag hplain with rfl | rfl <;> simp
  constructor
  case not_nak => exact fun hmem => (hnot _ hmem).1 rfl
  case capacity => exact fun _ => hextra
  case regular => exact fun _ => hseq
  case duplicate => exact fun hmem => absurd rfl (hnot _ hmem).2.1
  case disorder => exact fun hmem => absurd rfl (hnot _ hmem).2.2

/-- No other flag that says something about packets goes along with the first one. -/
theorem RxCore.flag_eq {flag first : UdpicFlag} (hmem : flag ∈ first :: conn.flags)
    (hplain : ¬ (flag = .receiverToSender ∨ flag = .eos)) : flag = first :=
  (mem_cons.mp hmem).resolve_right fun hrest => hplain (h.flags_plain flag hrest)

theorem RxCore.ackOk_duplicate {seq : Nat} (hreceived : conn.Received seq)
    (hbound : sent.length < 2 ^ 32 - 1) :
    AckOk conn ⟨.duplicate :: conn.flags, seq, sub32 conn.seq 1, []⟩ where
  not_nak hmem := nomatch h.flag_eq hmem (by decide)
  capacity hmem := nomatch h.flag_eq hmem (by decide)
  regular hmem := nomatch h.flag_eq hmem (by decide)
  duplicate _ := ⟨le_of_eq (h.prev_eq hbound), hreceived⟩
  disorder hmem := nomatch h.flag_eq hmem (by decide)

end

end

section

variable {cfg : Config} {sent : List (Packet P)} {conn : RxConn P} {pkt : Packet P}
  {seq : Nat} {lost : List Nat}

/-- One turn of the loop over a packet that is there. -/
theorem RxCore.moveTailOnce (h : RxCore cfg sent conn) (hbound : sent.length < 2 ^ 32 - 1)
    (hthere : (conn.pktQ conn.pktQTail).isSome) (hsize : conn.pktQSize < conn.pktQCapacity) :
    RxCore cfg sent { conn with
      pktQSize := conn.pktQSize + 1
      pktQTail := (conn.pktQTail + 1) % conn.pktQCapacity
      seq := add32 conn.seq 1 } := by
  have hplace : (ringGet conn.pktQCapacity conn.pktQ
      (conn.consumed + conn.pktQSize + 1)).isSome := by
    rwa [ringGet, place_succ, ← h.tail_eq]
  have hwindow : InWindow conn.consumed conn.pktQCapacity
      (conn.consumed + conn.pktQSize + 1) := ⟨by omega, by omega⟩
  have hsent : conn.consumed + conn.pktQSize < sent.length := by
    rcases Option.isSome_iff_exists.mp hplace with ⟨pkt, hget⟩
    exact (List.getElem?_eq_some_iff.mp (h.content _ pkt hwindow hget)).1
  exact { h with
    tail_eq := by
      change (conn.pktQTail + 1) % conn.pktQCapacity =
        (conn.consumed + (conn.pktQSize + 1)) % conn.pktQCapacity
      rw [h.tail_eq, mod_add_mod, add_assoc]
    size_le := hsize
    seq_eq := by
      change add32 conn.seq 1 = conn.consumed + (conn.pktQSize + 1) + 1
      rw [add32_of_lt (by rw [h.seq_eq]; omega), h.seq_eq]
      omega
    filled := fun seq habove hbelow => by
      change seq ≤ conn.consumed + (conn.pktQSize + 1) at hbelow
      rcases lt_or_ge (conn.consumed + conn.pktQSize) seq with hlast | hold
      · have heq : seq = conn.consumed + conn.pktQSize + 1 := by omega
        exact heq ▸ hplace
      · exact h.filled seq habove hold }

/-- The loop leaves the tail at the first packet that is missing. -/
theorem moveTail_rxOk (hbound : sent.length < 2 ^ 32 - 1) (fuel : Nat) :
    ∀ {conn : RxConn P}, RxCore cfg sent conn → conn.pktQCapacity - conn.pktQSize ≤ fuel →
      RxOk cfg sent (moveTail fuel conn) ∧ Grows conn (moveTail fuel conn) ∧
        (moveTail fuel conn).stillActive = conn.stillActive := by
  induction fuel with
  | zero =>
    intro conn h hfuel
    refine ⟨{ h with gap := fun hlt => ?_ }, Grows.refl conn, rfl⟩
    change conn.pktQSize < conn.pktQCapacity at hlt
    omega
  | succ fuel ih =>
    intro conn h hfuel
    rw [moveTail]
    split
    case isTrue hguard =>
      have hnext := h.moveTailOnce hbound hguard.1 hguard.2
      rcases ih hnext (by
        change conn.pktQCapacity - (conn.pktQSize + 1) ≤ fuel
        omega) with ⟨hok, hgrows, hactive⟩
      refine ⟨hok, ⟨hgrows.received, hgrows.consumed, ?_⟩, hactive⟩
      exact Nat.le_trans (Nat.add_le_add_left (Nat.le_succ _) _) hgrows.tail
    case isFalse hguard =>
      refine ⟨{ h with gap := fun hlt => ?_ }, Grows.refl conn, rfl⟩
      rw [ringGet, place_succ, ← h.tail_eq]
      by_contra hthere
      exact hguard ⟨Option.isSome_iff_ne_none.mpr hthere, hlt⟩

/-- A packet of the sender goes to its free place in the window. -/
theorem RxOk.store (h : RxOk cfg sent conn)
    (hwindow : InWindow conn.consumed conn.pktQCapacity pkt.seq)
    (hpkt : sent[pkt.seq - 1]? = some pkt)
    (hfree : ringGet conn.pktQCapacity conn.pktQ pkt.seq = none) :
    RxCore cfg sent { conn with
      pktQ := update conn.pktQ (place conn.pktQCapacity pkt.seq)
        (some pkt) } ∧ Grows conn { conn with
      pktQ := update conn.pktQ (place conn.pktQCapacity pkt.seq) (some pkt) } := by
  have hkeep : ∀ seq, InWindow conn.consumed conn.pktQCapacity seq →
      (ringGet conn.pktQCapacity conn.pktQ seq).isSome →
      (ringGet conn.pktQCapacity (update conn.pktQ
        (place conn.pktQCapacity pkt.seq) (some pkt)) seq).isSome := by
    intro seq hseq hsome
    by_cases heq : seq = pkt.seq
    · rw [heq, ringGet_put_self]
      rfl
    · rwa [ringGet_put_of_ne conn.pktQ _ hwindow hseq heq]
  constructor
  · exact { h.toRxCore with
      content := fun seq other hseq hget => by
        by_cases heq : seq = pkt.seq
        · rw [heq] at hget ⊢
          rw [ringGet_put_self] at hget
          exact hget ▸ hpkt
        · rw [ringGet_put_of_ne conn.pktQ _ hwindow hseq heq] at hget
          exact h.content seq other hseq hget
      filled := fun seq habove hbelow =>
        hkeep seq (h.inWindow_of_filled habove hbelow) (h.filled seq habove hbelow)
      buff := fun other hbuff => by
        have hhead := h.buff other hbuff
        change update conn.pktQ (place conn.pktQCapacity pkt.seq)
          (some pkt) conn.pktQHead = some other
        rw [update_of_ne, hhead]
        intro heq
        rw [heq] at hhead
        rw [ringGet, hhead] at hfree
        cases hfree }
  · refine ⟨fun seq hreceived => ?_, le_refl _, le_refl _⟩
    exact hreceived.imp_right fun hin => ⟨hin.1, hkeep seq hin.1 hin.2⟩

/-- A list of the numbers from `seq` on that are missing, in order: what is
between them has been stored. -/
structure Missing (conn : RxConn P) (seq : Nat) (lost : List Nat) : Prop where
  sorted : lost.Pairwise (· < ·)
  from_seq : ∀ missing ∈ lost, seq ≤ missing
  between : ∀ other, seq ≤ other → other ∉ lost → (∃ missing ∈ lost, other < missing) →
    InWindow conn.consumed conn.pktQCapacity other ∧
      (ringGet conn.pktQCapacity conn.pktQ other).isSome

theorem Missing.nil (seq : Nat) : Missing conn seq [] :=
  ⟨List.Pairwise.nil, by simp, by simp⟩

theorem Missing.cons (h : Missing conn (seq + 1) lost) : Missing conn seq (seq :: lost) where
  sorted := pairwise_cons.mpr ⟨h.from_seq, h.sorted⟩
  from_seq := by
    intro missing hmem
    rcases mem_cons.mp hmem with rfl | hrest
    · exact le_refl _
    · exact le_of_succ_le (h.from_seq missing hrest)
  between := by
    rintro other hle hnot ⟨missing, hmem, hlt⟩
    rw [mem_cons, not_or] at hnot
    have hnext : seq + 1 ≤ other := lt_of_le_of_ne hle (Ne.symm hnot.1)
    refine h.between other hnext hnot.2 ⟨missing, ?_, hlt⟩
    rcases mem_cons.mp hmem with rfl | hrest
    · omega
    · exact hrest

theorem Missing.skip (h : Missing conn (seq + 1) lost)
    (hwindow : InWindow conn.consumed conn.pktQCapacity seq)
    (hthere : (ringGet conn.pktQCapacity conn.pktQ seq).isSome) : Missing conn seq lost where
  sorted := h.sorted
  from_seq missing hmem := le_of_succ_le (h.from_seq missing hmem)
  between := by
    intro other hle hnot hex
    rcases eq_or_lt_of_le hle with rfl | hlt
    · exact ⟨hwindow, hthere⟩
    · exact h.between other hlt hnot hex

/-- The walk of `handleDisorderPacket` from the tail to the packet that
triggered it. -/
theorem lostSeqs_missing {last : Nat} (hlast : InWindow conn.consumed conn.pktQCapacity last)
    (hbound : last < 2 ^ 32) (fuel : Nat) :
    ∀ seq count, conn.consumed < seq → seq ≤ last →
      Missing conn seq (lostSeqs conn (place conn.pktQCapacity last) fuel
        (place conn.pktQCapacity seq) seq count) := by
  induction fuel with
  | zero => exact fun seq _ _ _ => Missing.nil seq
  | succ fuel ih =>
    intro seq count habove hle
    rw [lostSeqs]
    split
    case isFalse => exact Missing.nil seq
    case isTrue hguard =>
      have hne : seq ≠ last := fun heq => hguard.1 (heq ▸ rfl)
      have hwindow : InWindow conn.consumed conn.pktQCapacity seq :=
        ⟨habove, le_trans hle hlast.below⟩
      have hstep : (place conn.pktQCapacity seq + 1) % conn.pktQCapacity =
          place conn.pktQCapacity (seq + 1) := by
        rw [place, place, mod_add_mod]
        congr 1
        omega
      have hadd : add32 seq 1 = seq + 1 := add32_of_lt (by omega)
      have hrest := fun count' => ih (seq + 1) count' (by omega) (by omega)
      simp only [hstep, hadd]
      split
      case isTrue hnone => exact (hrest _).cons
      case isFalse hsome =>
        refine (hrest _).skip hwindow ?_
        rw [Option.isSome_iff_ne_none]
        exact fun hnone => hsome (by rw [ringGet] at hnone; simp [hnone])

/-- The ack of a packet that was stored behind a gap. -/
theorem RxOk.ackOk_disorder (h : RxOk cfg sent conn)
    (hwindow : InWindow conn.consumed conn.pktQCapacity pkt.seq)
    (habove : conn.consumed + conn.pktQSize < pkt.seq)
    (hthere : (ringGet conn.pktQCapacity conn.pktQ pkt.seq).isSome) (hlt : pkt.seq < 2 ^ 32) :
    AckOk conn (handleDisorderPacket conn (place conn.pktQCapacity pkt.seq)
      (conn.consumed + conn.pktQSize + 1) pkt) := by
  have hmissing := lostSeqs_missing hwindow hlt conn.pktQCapacity
    (conn.consumed + conn.pktQSize + 1) 0 (by omega) habove
  rw [place_succ, ← h.tail_eq] at hmissing
  constructor
  case not_nak => exact fun hmem => nomatch h.flag_eq hmem (by decide)
  case capacity => exact fun hmem => nomatch h.flag_eq hmem (by decide)
  case regular => exact fun hmem => nomatch h.flag_eq hmem (by decide)
  case duplicate => exact fun hmem => nomatch h.flag_eq hmem (by decide)
  case disorder =>
    intro _
    refine ⟨.inr ⟨hwindow, hthere⟩, hmissing.sorted, fun seq hnot hex => ?_⟩
    rcases lt_or_ge (conn.consumed + conn.pktQSize) seq with hnew | hold
    · exact .inr (hmissing.between seq hnew hnot hex)
    · exact h.received_of_le hold

/-- What one call does to a receiver that meets the invariant. -/
structure RxStep (cfg : Config) (sent : List (Packet P)) (before : RxConn P)
    (result : RxConn P × List Ack) : Prop where
  ok : RxOk cfg sent result.1
  grows : Grows before result.1
  acks : ∀ ack ∈ result.2, AckOk result.1 ack
  active : result.1.stillActive = before.stillActive

theorem RxOk.setFlags (h : RxOk cfg sent conn) {flags : List UdpicFlag}
    (hflags : ∀ flag ∈ flags, flag = .receiverToSender ∨ flag = .eos) :
    RxOk cfg sent { conn with flags := flags } :=
  { h with flags_plain := hflags }

/-- A packet that fills the gap at the tail: the tail moves on and the new last
packet may end the stream. -/
theorem RxOk.stepTail {stored : RxConn P} (h : RxCore cfg sent stored) (hgrows : Grows conn stored)
    (hbound : sent.length < 2 ^ 32 - 1) (hactive : stored.stillActive = conn.stillActive) :
    let moved := moveTail stored.pktQCapacity stored
    ∀ flags, (flags = .eos :: moved.flags ∨ flags = moved.flags) →
      RxStep cfg sent conn ({ moved with flags := flags },
        [⟨.capacity :: .ack :: flags, sub32 moved.seq 1, moved.extraSeq, []⟩]) := by
  intro moved flags hflags
  rcases moveTail_rxOk hbound stored.pktQCapacity h (sub_le _ _) with
    ⟨hok, hmoved, hstill⟩
  have hplain : ∀ flag ∈ flags, flag = .receiverToSender ∨ flag = .eos := by
    intro flag hmem
    rcases hflags with rfl | rfl
    · rcases mem_cons.mp hmem with rfl | hold
      · exact .inr rfl
      · exact hok.flags_plain flag hold
    · exact hok.flags_plain flag hmem
  have hnew := hok.setFlags hplain
  refine ⟨hnew, hgrows.trans { hmoved with }, forall_mem_singleton.mpr ?_, hstill.trans hactive⟩
  exact hnew.ackOk_regular (by simp; tauto) (le_of_eq (hok.prev_eq hbound))
    (le_of_eq hnew.extraSeq_eq)

/-- A packet that is still to come and may be stored. -/
structure Expected (cfg : Config) (sent : List (Packet P)) (conn : RxConn P)
    (pkt : Packet P) : Prop where
  positive : 0 < pkt.seq
  there : sent[pkt.seq - 1]? = some pkt
  window : sent.length ≤ conn.consumed + cfg.queueDepth
  bound : sent.length < 2 ^ 32 - 1

theorem Expected.le (hpkt : Expected cfg sent conn pkt) : pkt.seq ≤ sent.length := by
  have hlt := (List.getElem?_eq_some_iff.mp hpkt.there).1
  omega

variable (h : RxOk cfg sent conn)

include h

theorem handleDataPacket_rxStep
    (hpkt : Expected cfg sent conn pkt) (hinactive : conn.stillActive = false →
      conn.consumed + conn.pktQSize = sent.length) :
    RxStep cfg sent conn (handleDataPacket conn pkt) := by
  have hle := hpkt.le
  have hbound := hpkt.bound
  have hfar := hpkt.window
  have hseq := h.seq_eq
  have hseqLt := h.seq_lt hbound
  have hhead : sub32 conn.seq conn.pktQSize = conn.consumed + 1 := by
    rw [sub32_of_le (by omega) hseqLt]
    omega
  unfold handleDataPacket
  by_cases hold : pkt.seq < conn.seq
  · rw [if_pos hold]
    refine ⟨h, Grows.refl conn, forall_mem_singleton.mpr ?_, rfl⟩
    exact h.ackOk_regular (by simp) (le_of_eq (h.prev_eq hbound)) (le_of_eq h.extraSeq_eq)
  · have hactive : ¬conn.stillActive = false := fun hoff => by
      have hall := hinactive hoff
      omega
    have hwindow : InWindow conn.consumed conn.pktQCapacity pkt.seq :=
      ⟨by omega, by rw [h.capacity_eq]; omega⟩
    have hroom : ¬(conn.pktQSize = conn.pktQCapacity ∨
        sub32 pkt.seq (conn.consumed + 1) ≥ conn.pktQCapacity) := by
      have hbelow := hwindow.below
      rw [sub32_of_le hwindow.above (by omega)]
      omega
    have hpos : sub32 pkt.seq 1 % conn.pktQCapacity = place conn.pktQCapacity pkt.seq := by
      rw [sub32_of_le hpkt.positive (by omega), place]
    simp only [if_neg hold, if_neg hactive, hhead, if_neg hroom, hpos]
    split
    case h_1 hsome =>
      refine ⟨h, Grows.refl conn, forall_mem_singleton.mpr ?_, rfl⟩
      exact h.ackOk_duplicate (.inr ⟨hwindow, by simp [ringGet, hsome]⟩) hbound
    case h_2 hfree =>
      rcases h.store hwindow hpkt.there hfree with ⟨hstored, hgrows⟩
      split
      case isTrue =>
        exact RxOk.stepTail hstored hgrows hbound rfl _ (by split <;> simp)
      case isFalse htail =>
        have hnext : conn.consumed + conn.pktQSize + 1 ≠ pkt.seq := by
          intro heq
          rw [← heq, place_succ] at htail
          exact htail h.tail_eq.symm
        have htailSeq : add32 (conn.consumed + 1) conn.pktQSize =
            conn.consumed + conn.pktQSize + 1 := by
          rw [add32_of_lt (by omega)]
          omega
        have htailWindow : conn.pktQSize < conn.pktQCapacity →
            InWindow conn.consumed conn.pktQCapacity (conn.consumed + conn.pktQSize + 1) :=
          fun hlt => ⟨by omega, by omega⟩
        have hok : RxOk cfg sent { conn with
            pktQ := update conn.pktQ (place conn.pktQCapacity pkt.seq) (some pkt) } :=
          { hstored with
            gap := fun hlt => by
              rw [← h.gap hlt]
              exact ringGet_put_of_ne conn.pktQ _ hwindow (htailWindow hlt) hnext }
        refine ⟨hok, hgrows, forall_mem_singleton.mpr ?_, rfl⟩
        simp only [htailSeq]
        refine hok.ackOk_disorder hwindow ?_ ?_ (by omega)
        · change conn.consumed + conn.pktQSize < pkt.seq
          omega
        · rw [ringGet_put_self]
          rfl

theorem handleStatusQuery_ackOk (hbound : sent.length < 2 ^ 32 - 1) :
    AckOk conn (handleStatusQuery conn) := by
  have hseq := h.seq_eq
  have hpos : conn.seq > 0 := by omega
  apply h.ackOk_regular
  · intro flag hflag
    rcases mem_cons.mp hflag with hcapacity | hrest
    · exact .inr (.inl hcapacity)
    · exact (mem_cons.mp hrest).imp_right Or.inr
  · rw [handleStatusQuery, if_pos hpos, h.prev_eq hbound]
  · exact le_of_eq h.extraSeq_eq

theorem handleStatusQuery_rxStep (hbound : sent.length < 2 ^ 32 - 1) :
    RxStep cfg sent conn (conn, [handleStatusQuery conn]) :=
  ⟨h, Grows.refl conn, forall_mem_singleton.mpr (handleStatusQuery_ackOk h hbound), rfl⟩

theorem prepareRxConnForRead_rxStep (hread : prepareRxConnForRead conn = some after) :
    RxStep cfg sent conn (after, []) := by
  unfold prepareRxConnForRead at hread
  split at hread
  · cases hread
    exact ⟨{ h with buff := fun _ hbuff => hbuff },
      ⟨fun _ hold => hold, le_refl _, le_refl _⟩, by simp, rfl⟩
  · cases hread

end

section

variable {cfg : Config} {sent : List (Packet P)} {conn : RxConn P}

/-- The state after the packet at the head was released. -/
def RxConn.release (conn : RxConn P) (buf : Packet P) : RxConn P :=
  { conn with
    pktQ := update conn.pktQ conn.pktQHead none
    pBuff := none
    pktQHead := (conn.pktQHead + 1) % conn.pktQCapacity
    pktQSize := conn.pktQSize - 1
    extraSeq := buf.seq
    released := conn.released ++ [buf] }

theorem RxConn.release_consumed (conn : RxConn P) (buf : Packet P) :
    (conn.release buf).consumed = conn.consumed + 1 := by
  simp [RxConn.release, RxConn.consumed]

variable (h : RxOk cfg sent conn)

include h

theorem RxOk.release_ringGet (buf : Packet P) {seq : Nat}
    (hwindow : InWindow conn.consumed conn.pktQCapacity seq) (hne : seq ≠ conn.consumed + 1) :
    ringGet conn.pktQCapacity (conn.release buf).pktQ seq =
      ringGet conn.pktQCapacity conn.pktQ seq := by
  change ringGet _ (update conn.pktQ conn.pktQHead none) seq = _
  rw [h.head_eq]
  exact ringGet_take_of_inWindow conn.pktQ hwindow hne

theorem RxOk.release_ringGet_new (buf : Packet P) :
    ringGet conn.pktQCapacity (conn.release buf).pktQ
      (conn.consumed + 1 + conn.pktQCapacity) = none := by
  change ringGet _ (update conn.pktQ conn.pktQHead none) _ = _
  rw [h.head_eq]
  exact ringGet_take_new conn.consumed conn.pktQCapacity conn.pktQ

theorem RxOk.release_grows (buf : Packet P) : Grows conn (conn.release buf) := by
  have hconsumed := conn.release_consumed buf
  constructor
  case received =>
    intro seq hreceived
    rcases lt_or_ge (conn.consumed + 1) seq with hlater | hgone
    · rcases hreceived with hold | ⟨hwindow, hthere⟩
      · omega
      · refine .inr ⟨⟨by omega, ?_⟩, ?_⟩
        · have hbelow := hwindow.below
          change seq ≤ _ + conn.pktQCapacity
          omega
        · change (ringGet conn.pktQCapacity _ seq).isSome
          rwa [h.release_ringGet buf hwindow (ne_of_gt hlater)]
    · exact .inl (by omega)
  case consumed => omega
  case tail =>
    have hsize' : (conn.release buf).pktQSize = conn.pktQSize - 1 := rfl
    omega

variable (hcap : 0 < cfg.queueDepth)

include hcap

theorem RxOk.release_rxOk {buf : Packet P} (hhead : conn.pktQ conn.pktQHead = some buf)
    (hseq : buf.seq = conn.consumed + 1) : RxOk cfg sent (conn.release buf) := by
  rcases h.head_packet hcap hhead with ⟨hsent, hsize⟩
  have hconsumed := conn.release_consumed buf
  have hcap' : (conn.release buf).pktQCapacity = conn.pktQCapacity := rfl
  have hsize' : (conn.release buf).pktQSize = conn.pktQSize - 1 := rfl
  have htail : conn.consumed + 1 + (conn.pktQSize - 1) = conn.consumed + conn.pktQSize := by omega
  -- a number of the new window is one of the old window or has just entered it
  have hwindow : ∀ seq, InWindow (conn.consumed + 1) conn.pktQCapacity seq →
      seq = conn.consumed + 1 + conn.pktQCapacity ∨
        (InWindow conn.consumed conn.pktQCapacity seq ∧ seq ≠ conn.consumed + 1) := by
    rintro seq ⟨habove, hbelow⟩
    by_cases hnew : seq = conn.consumed + 1 + conn.pktQCapacity
    · exact .inl hnew
    · exact .inr ⟨⟨by omega, by omega⟩, by omega⟩
  constructor
  · constructor
    case capacity_eq => exact h.capacity_eq
    case released_eq =>
      rw [hconsumed, take_add_one, hsent, ← h.released_eq]
      rfl
    case head_eq =>
      rw [hconsumed, hcap', ← mod_add_mod, ← h.head_eq]
      rfl
    case tail_eq =>
      rw [hconsumed, hsize', htail]
      exact h.tail_eq
    case size_le => exact le_trans (sub_le _ _) h.size_le
    case seq_eq =>
      rw [hconsumed, hsize', htail]
      exact h.seq_eq
    case extraSeq_eq =>
      rw [hconsumed]
      exact hseq
    case content =>
      intro seq pkt hin hget
      rw [hconsumed] at hin
      rcases hwindow seq hin with rfl | ⟨hold, hne⟩
      · rw [hcap', h.release_ringGet_new buf] at hget
        cases hget
      · rw [hcap', h.release_ringGet buf hold hne] at hget
        exact h.content seq pkt hold hget
    case filled =>
      intro seq habove hbelow
      rw [hconsumed] at habove
      rw [hconsumed, hsize', htail] at hbelow
      have hbefore : conn.consumed < seq := lt_of_succ_lt habove
      rw [hcap', h.release_ringGet buf (h.inWindow_of_filled hbefore hbelow) (ne_of_gt habove)]
      exact h.filled seq hbefore hbelow
    case buff => exact fun pkt hbuff => by cases hbuff
    case flags_plain => exact h.flags_plain
    case dropped => exact h.dropped
  · intro _
    rw [hconsumed, hsize', htail, hcap']
    have hle := h.size_le
    by_cases hfull : conn.pktQSize = conn.pktQCapacity
    · rw [hfull, add_right_comm]
      exact h.release_ringGet_new buf
    · rw [h.release_ringGet buf ⟨by omega, by omega⟩ (by omega)]
      exact h.gap (lt_of_le_of_ne hle hfull)

theorem mlPutRxBufferIFC_rxStep {result : RxConn P × List Ack} (hbound : sent.length < 2 ^ 32 - 1)
    (hnumbered : ∀ pkt, sent[conn.consumed]? = some pkt → pkt.seq = conn.consumed + 1)
    (hput : mlPutRxBufferIFC conn = some result) : RxStep cfg sent conn result := by
  unfold mlPutRxBufferIFC putRxBufferAndSendAck at hput
  obtain ⟨_, hput⟩ := Option.ite_none_right_eq_some.mp hput
  split at hput
  case h_1 => cases hput
  case h_2 buf hhead =>
    have hseq := hnumbered buf (h.head_packet hcap hhead).1
    have hok := h.release_rxOk hcap hhead hseq
    have hgrows := h.release_grows buf
    split at hput
    · cases hput
      refine ⟨hok, hgrows, forall_mem_singleton.mpr ?_, rfl⟩
      refine hok.ackOk_regular (fun flag hflag => ?_) (le_of_eq (hok.prev_eq hbound))
        (le_of_eq hok.extraSeq_eq)
      rcases mem_cons.mp hflag with hack | hrest
      · exact .inl hack
      · exact .inr (mem_cons.mp hrest)
    · cases hput
      exact ⟨hok, hgrows, by simp, rfl⟩

/-- The reader marks its end of the connection inactive only at the last packet. -/
theorem markUDPConnInactiveIFC_spec (hmark : markUDPConnInactiveIFC conn = some after) :
    RxOk cfg sent after ∧ Grows conn after ∧ after.pktQSize = conn.pktQSize ∧
      ∃ pkt, pkt.eos = true ∧ sent[conn.consumed]? = some pkt ∧ 0 < conn.pktQSize := by
  unfold markUDPConnInactiveIFC at hmark
  split at hmark
  case h_2 => cases hmark
  case h_1 pkt hbuff =>
    obtain ⟨heos, hmark⟩ := Option.ite_none_right_eq_some.mp hmark
    cases hmark
    exact ⟨{ h with }, ⟨fun _ hold => hold, le_refl _, le_refl _⟩, rfl,
      pkt, heos, h.head_packet hcap (h.buff pkt hbuff)⟩

end

end Greenplum.Udpifc
