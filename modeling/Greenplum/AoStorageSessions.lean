/-
What a segment file holds after it was opened, appended to and closed several
times: the blocks of each session one behind the other, and behind them the zeros
up to the page boundary.
-/
import Greenplum.AoStorageWrite
import Mathlib.Data.List.Forall2

namespace Greenplum.AoStorage

open Fallible List Nat

section

variable (settings : StorageSettings) {safeWrite base : Nat}

/-- How much is padded when the file is closed at a position. -/
def padLen (position : Nat) : Nat :=
  if settings.safeFSWriteSize = 0 then 0
  else safeWriteRemainder settings.safeFSWriteSize position

/-- The blocks of one logical block; the first of a session follows the padding
of the last one. -/
structure Placed where
  afterClose : Bool
  blocks : List Block

def Placed.skip (placed : Placed) (base : Nat) : Nat :=
  if placed.afterClose then padLen settings base else 0

/-- The bytes from a position on to the end of the closed file. -/
def layout : Nat → List Placed → List Byte
  | base, [] => List.replicate (padLen settings base) 0
  | base, placed :: rest =>
    List.replicate (placed.skip settings base) 0 ++
      (RecordLog.image settings.blockImage placed.blocks ++
        layout (base + placed.skip settings base +
          (RecordLog.image settings.blockImage placed.blocks).length) rest)

/-- The positions of the headers in it. -/
def headerStarts : Nat → List Placed → List Nat
  | _, [] => []
  | base, placed :: rest =>
    RecordLog.starts settings.blockImage (base + placed.skip settings base) placed.blocks ++
      headerStarts (base + placed.skip settings base +
        (RecordLog.image settings.blockImage placed.blocks).length) rest

/-- The logical blocks of one session. -/
def placeSession : List (List Block) → List Placed
  | [] => []
  | first :: rest => ⟨true, first⟩ :: rest.map (⟨false, ·⟩)

variable {settings}

theorem safeWriteRemainder_boundary (hpos : 0 < safeWrite) (position : Nat) :
    position + safeWriteRemainder safeWrite position =
      (position + safeWrite - 1) / safeWrite * safeWrite := by
  have hdiv := div_add_mod (position + safeWrite - 1) safeWrite
  have hmod := mod_lt (position + safeWrite - 1) hpos
  rw [Nat.mul_comm] at hdiv
  rw [safeWriteRemainder]
  omega

theorem safeWriteRemainder_mul (hpos : 0 < safeWrite) (count : Nat) :
    safeWriteRemainder safeWrite (count * safeWrite) = 0 := by
  rw [safeWriteRemainder, Nat.add_sub_assoc hpos, Nat.mul_comm count safeWrite,
    Nat.mul_add_div hpos, Nat.div_eq_of_lt (Nat.sub_lt hpos Nat.one_pos), Nat.add_zero,
    Nat.mul_comm count, Nat.sub_self]

theorem safeWriteRemainder_lt (hpos : 0 < safeWrite) (position : Nat) :
    safeWriteRemainder safeWrite position < safeWrite := by
  have hdiv := div_mul_le_self (position + safeWrite - 1) safeWrite
  rw [safeWriteRemainder]
  omega

theorem padLen_boundary (position : Nat) :
    padLen settings (position + padLen settings position) = 0 := by
  unfold padLen
  by_cases hzero : settings.safeFSWriteSize = 0
  · rw [if_pos hzero]
  · have hpos := Nat.pos_of_ne_zero hzero
    rw [if_neg hzero, if_neg hzero, safeWriteRemainder_boundary hpos, safeWriteRemainder_mul hpos]

theorem padLen_lt (hsafe : settings.safeFSWriteSize ≠ 0) (position : Nat) :
    padLen settings position < settings.safeFSWriteSize := by
  rw [padLen, if_neg hsafe]
  exact safeWriteRemainder_lt (Nat.pos_of_ne_zero hsafe) position

theorem padLen_zero : padLen settings 0 = 0 := by
  unfold padLen
  split_ifs with hzero
  · rfl
  · have h := safeWriteRemainder_mul (Nat.pos_of_ne_zero hzero) 0
    rwa [Nat.zero_mul] at h

theorem layout_boundary (base : Nat) (placed : List Placed) :
    padLen settings (base + (layout settings base placed).length) = 0 := by
  induction placed generalizing base with
  | nil => rw [layout, length_replicate, padLen_boundary]
  | cons first rest ih =>
    rw [layout, length_append, length_append, length_replicate, ← Nat.add_assoc, ← Nat.add_assoc]
    exact ih _

theorem layout_open (base : Nat) (groups : List (List Block)) :
    layout settings base (groups.map (⟨false, ·⟩)) =
      RecordLog.image settings.blockImage groups.flatten ++ List.replicate (padLen settings (base +
          (RecordLog.image settings.blockImage groups.flatten).length)) 0 := by
  induction groups generalizing base with
  | nil => rfl
  | cons first rest ih =>
    simp [layout, Placed.skip, ih, flatten_cons, RecordLog.image_append, Nat.add_assoc]

theorem headerStarts_open (base : Nat) (groups : List (List Block)) :
    headerStarts settings base (groups.map (⟨false, ·⟩)) =
      RecordLog.starts settings.blockImage base groups.flatten := by
  induction groups generalizing base with
  | nil => rfl
  | cons first rest ih =>
    simp [headerStarts, Placed.skip, ih, flatten_cons, RecordLog.starts_append]

theorem layout_placeSession (hbase : padLen settings base = 0) (groups : List (List Block)) :
    layout settings base (placeSession groups) =
      RecordLog.image settings.blockImage groups.flatten ++ List.replicate (padLen settings (base +
          (RecordLog.image settings.blockImage groups.flatten).length)) 0 := by
  rw [← layout_open]
  cases groups with
  | nil => rfl
  | cons first rest =>
    simp [placeSession, layout, Placed.skip, hbase]

theorem headerStarts_placeSession (hbase : padLen settings base = 0) (groups : List (List Block)) :
    headerStarts settings base (placeSession groups) =
      RecordLog.starts settings.blockImage base groups.flatten := by
  rw [← headerStarts_open]
  cases groups with
  | nil => rfl
  | cons first rest =>
    simp [placeSession, headerStarts, Placed.skip, hbase]

/-- The next session begins where the file was closed. -/
theorem layout_append (base : Nat) (placed : List Placed) (groups : List (List Block)) :
    layout settings base (placed ++ placeSession groups) =
        layout settings base placed ++ layout settings
          (base + (layout settings base placed).length) (placeSession groups) ∧
      headerStarts settings base (placed ++ placeSession groups) =
        headerStarts settings base placed ++ headerStarts settings
          (base + (layout settings base placed).length) (placeSession groups) := by
  induction placed generalizing base with
  | nil =>
    have hboundary : padLen settings (base + padLen settings base) = 0 := padLen_boundary base
    cases groups with
    | nil =>
      simp [placeSession, layout, headerStarts, hboundary]
    | cons first rest =>
      simp [placeSession, layout, headerStarts, Placed.skip, hboundary]
  | cons first rest ih =>
    obtain ⟨hlayout, hstarts⟩ := ih (base + first.skip settings base +
      (RecordLog.image settings.blockImage first.blocks).length)
    simp [layout, headerStarts, hlayout, hstarts, ← Nat.add_assoc]

/-- A session places the logical blocks it was given. -/
theorem spells_placeSession {groups : List (List Block)} {logicals : List LogicalBlock}
    (h : List.Forall₂ (Spells settings) groups logicals) :
    List.Forall₂ (fun place logical => Spells settings place.blocks logical)
      (placeSession groups) logicals := by
  cases h with
  | nil => exact .nil
  | cons hfirst hrest =>
    refine .cons hfirst ?_
    rw [List.forall₂_map_left_iff]
    exact hrest

end

namespace StorageWrite

variable {write : StorageWrite} {file : List Byte} {logicalEof : Nat}
  {placed : List Placed} {ops : List WriteOp}

/-- The operations of a session append the blocks of their logical blocks. -/
theorem foldlM_run_spec (ops : List WriteOp) : ∀ {write : StorageWrite}, write.Inv →
    write.firstRowNum = none → (∀ op ∈ ops, op.InFields write.settings) →
    (∀ op ∈ ops, op.Accepted write.settings) → ∃ (next : StorageWrite) (groups : List (List Block)),
      ops.foldlM run write = .ok next ∧ Appends write next groups.flatten ∧
      List.Forall₂ (Spells write.settings) groups (ops.map WriteOp.logical) ∧
      next.firstRowNum = none := by
  induction ops with
  | nil =>
    intro write h hnone _ _
    refine ⟨write, [], rfl, ⟨h, rfl, ?_, ?_⟩, .nil, hnone⟩
    · exact (append_nil _).symm
    · exact (append_nil _).symm
  | cons op rest ih =>
    intro write h hnone hfields haccepted
    obtain ⟨next, blocks, hnext, happends, hspells, hdone⟩ :=
      run_spec h hnone (hfields op mem_cons_self) (haccepted op mem_cons_self)
    obtain ⟨last, groups, hlast, hmore, hgroups, hend⟩ := ih happends.inv hdone
      (fun other hmem => happends.settings ▸ hfields other (mem_cons_of_mem _ hmem))
      (fun other hmem => happends.settings ▸ haccepted other (mem_cons_of_mem _ hmem))
    rw [happends.settings] at hgroups
    refine ⟨last, blocks :: groups, ?_, ?_, .cons hspells hgroups, hend⟩
    · rw [foldlM_cons, hnext]
      exact hlast
    · exact happends.trans hmore

theorem foldlM_run_refused (ops : List WriteOp) : ∀ {write next : StorageWrite},
    write.Inv → write.firstRowNum = none → (∀ op ∈ ops, op.InFields write.settings) →
    ops.foldlM run write = .ok next → ∀ op ∈ ops, op.Accepted write.settings := by
  induction ops with
  | nil =>
    intro write next _ _ _ _ op hmem
    exact absurd hmem not_mem_nil
  | cons first rest ih =>
    intro write last h hnone hfields hrun op hmem
    have hfirst : first.Accepted write.settings := by
      by_contra hrefused
      obtain ⟨next, hnext, _⟩ := bind_eq_ok.mp hrun
      exact run_refused write hnone hrefused next hnext
    obtain ⟨next, blocks, hnext, happends, _, hdone⟩ :=
      run_spec h hnone (hfields first mem_cons_self) hfirst
    rw [foldlM_cons, hnext] at hrun
    cases hmem with
    | head => exact hfirst
    | tail _ hrest =>
      rw [← happends.settings]
      exact ih happends.inv hdone (fun other hother => happends.settings ▸
        hfields other (mem_cons_of_mem _ hother)) hrun op hrest

/-- The padding of the last page. -/
theorem doPadOutRemainder_spec (h : write.Inv) :
    ∃ next : StorageWrite, write.doPadOutRemainder none = .ok next ∧ next.Inv ∧
      next.settings = write.settings ∧ next.contents = write.contents ++
        List.replicate (padLen write.settings write.contents.length) 0 ∧
      next.headerPositions = write.headerPositions ∧ next.firstRowNum = write.firstRowNum := by
  have hposition : write.bufferedAppend.nextBufferPosition = write.contents.length :=
    h.append.length_contents.symm
  by_cases hzero : write.settings.safeFSWriteSize = 0
  · refine ⟨write, ?_, h, rfl, ?_, rfl, rfl⟩
    · simp only [doPadOutRemainder, if_pos hzero]
    · rw [padLen, if_pos hzero, replicate_zero, append_nil]
  · have hpad : padLen write.settings write.contents.length =
        safeWriteRemainder write.settings.safeFSWriteSize write.contents.length :=
      if_neg hzero
    have hlt := padLen_lt hzero write.contents.length
    have hle := write.settings.safeWrite_le
    have hlimit := h.limit
    unfold StorageSettings.maxBufferWithCompressionOverrunLen at hlimit
    simp only [doPadOutRemainder, if_neg hzero, hposition, ← hpad, Option.all_none,
      Bool.and_true, decide_eq_true_eq]
    by_cases hsome : padLen write.settings write.contents.length > 0
    · have hlength : (List.replicate (padLen write.settings write.contents.length)
          (0 : Byte)).length ≤ padLen write.settings write.contents.length :=
        Nat.le_of_eq length_replicate
      obtain ⟨got, next, hgot, hnext, _, hinv, hcontents, hmax, _⟩ :=
        BufferedAppend.put_spec h.append hlength (by omega)
          (padLen write.settings write.contents.length)
      rw [length_replicate] at hnext
      rw [if_pos hsome, hgot]
      simp only [ok_bind, hnext, pure, Except.pure]
      exact ⟨_, rfl, ⟨hinv, hmax.trans h.limit, h.version⟩, rfl, hcontents, rfl, rfl⟩
    · rw [if_neg hsome]
      refine ⟨write, rfl, h, rfl, ?_, rfl, rfl⟩
      rw [Nat.eq_zero_of_not_pos hsome, replicate_zero, append_nil]

/-- What holds between the sessions: the file ends with the padding of the last
one. -/
structure Closed (write : StorageWrite) (file : List Byte) (logicalEof : Nat)
    (placed : List Placed) : Prop where
  idle : write.bufferedAppend.Idle
  limit : write.bufferedAppend.maxBufferLen = write.settings.maxBufferWithCompressionOverrunLen
  firstRowNum : write.firstRowNum = none
  file_take : file.take logicalEof = layout write.settings 0 placed
  eof_le : logicalEof ≤ file.length
  headerPositions : write.headerPositions = headerStarts write.settings 0 placed

section

variable (h : Closed write file logicalEof placed)

include h

theorem Closed.length_layout : (layout write.settings 0 placed).length = logicalEof := by
  rw [← h.file_take, length_take, Nat.min_eq_left h.eof_le]

/-- The file is opened at its end. -/
theorem Closed.openFile : ∃ opened : StorageWrite,
    write.openFile file .latest logicalEof 0 = .ok opened ∧ opened.Inv ∧
      opened.settings = write.settings ∧ opened.firstRowNum = none ∧
      opened.headerPositions = write.headerPositions ∧
      opened.contents = layout write.settings 0 placed := by
  obtain ⟨hinv, hcontents⟩ := h.idle.setFile h.eof_le 0
  refine ⟨_, if_neg (fun hne => hne rfl), ⟨hinv, h.limit, rfl⟩, rfl, h.firstRowNum, rfl, ?_⟩
  exact hcontents.trans h.file_take

/-- One session adds its logical blocks. -/
theorem runSession_spec (hfields : ∀ op ∈ ops, op.InFields write.settings)
    (haccepted : ∀ op ∈ ops, op.Accepted write.settings) :
    ∃ (next : StorageWrite) (newFile : List Byte) (newEof : Nat) (groups : List (List Block)),
      write.runSession file logicalEof ops = .ok (next, newFile, newEof) ∧
      next.settings = write.settings ∧ Closed next newFile newEof (placed ++ placeSession groups) ∧
      List.Forall₂ (Spells write.settings) groups (ops.map WriteOp.logical) := by
  obtain ⟨opened, hopen, hstart, hsettings, hnone, hpositions, hfile⟩ := h.openFile
  obtain ⟨written, groups, hwritten, happends, hspells, hrow⟩ := foldlM_run_spec ops hstart
    hnone (hsettings ▸ hfields) (hsettings ▸ haccepted)
  obtain ⟨padded, hpadded, hpaddedInv, hpaddedSettings, hpaddedContents, hpaddedPositions,
    hpaddedRow⟩ := doPadOutRemainder_spec happends.inv
  obtain ⟨done, newFile, _, hcomplete, hidle, htake, hle, hmax, _⟩ :=
    BufferedAppend.completeFile_spec hpaddedInv.append
  have hsame : padded.settings = write.settings :=
    hpaddedSettings.trans (happends.settings.trans hsettings)
  have hboundary : padLen write.settings (0 + (layout write.settings 0 placed).length) = 0 :=
    layout_boundary 0 placed
  obtain ⟨hlayout, hstarts⟩ := @layout_append write.settings 0 placed groups
  rw [layout_placeSession hboundary] at hlayout
  rw [headerStarts_placeSession hboundary] at hstarts
  have hall : padded.contents = layout write.settings 0 (placed ++ placeSession groups) := by
    rw [hpaddedContents, happends.settings, happends.contents, hsettings, hfile, hlayout,
      length_append, Nat.zero_add, append_assoc]
  refine ⟨{ padded with bufferedAppend := done }, newFile, padded.contents.length, groups,
    ?_, hsame, ?_, hsettings ▸ hspells⟩
  · simp only [runSession, hopen, ok_bind, hwritten, flushAndCloseFile, hpadded, hcomplete]
    rfl
  · constructor
    case idle => exact hidle
    case limit => exact hmax.trans hpaddedInv.limit
    case firstRowNum => exact hpaddedRow.trans hrow
    case file_take => exact (htake.trans hall).trans (hsame ▸ rfl)
    case eof_le => exact hle
    case headerPositions =>
      rw [hpaddedPositions, happends.headerPositions, hpositions, h.headerPositions,
        hsettings, hfile, hsame, hstarts, Nat.zero_add]

theorem runSession_refused (hfields : ∀ op ∈ ops, op.InFields write.settings)
    {result : StorageWrite × List Byte × Nat}
    (hrun : write.runSession file logicalEof ops = .ok result) :
    ∀ op ∈ ops, op.Accepted write.settings := by
  obtain ⟨opened, hopen, hstart, hsettings, hnone, _⟩ := h.openFile
  rw [runSession, hopen] at hrun
  obtain ⟨written, hwritten, _⟩ := bind_eq_ok.mp
    (show (ops.foldlM run opened >>= flushAndCloseFile) = .ok result from hrun)
  rw [← hsettings] at hfields ⊢
  exact foldlM_run_refused ops hstart hnone hfields hwritten

end

/-- A run of sessions adds the logical blocks of all of them. -/
theorem runSessions_spec (sessions : List (List WriteOp)) :
    ∀ {write : StorageWrite} {file : List Byte} {logicalEof : Nat} {placed : List Placed},
    Closed write file logicalEof placed →
    (∀ ops ∈ sessions, ∀ op ∈ ops, op.InFields write.settings) →
    (∀ ops ∈ sessions, ∀ op ∈ ops, op.Accepted write.settings) →
    ∃ (next : StorageWrite) (newFile : List Byte) (newEof : Nat) (more : List Placed),
      write.runSessions file logicalEof sessions = .ok (next, newFile, newEof) ∧
      next.settings = write.settings ∧ Closed next newFile newEof (placed ++ more) ∧
      List.Forall₂ (fun place logical => Spells write.settings place.blocks logical) more
        (sessions.flatten.map WriteOp.logical) := by
  induction sessions with
  | nil =>
    intro write file logicalEof placed h _ _
    exact ⟨write, file, logicalEof, [], rfl, rfl, (append_nil placed).symm ▸ h, .nil⟩
  | cons ops rest ih =>
    intro write file logicalEof placed h hfields haccepted
    obtain ⟨next, newFile, newEof, groups, hnext, hsettings, hclosed, hspells⟩ :=
      runSession_spec h (hfields ops mem_cons_self) (haccepted ops mem_cons_self)
    obtain ⟨last, lastFile, lastEof, more, hlast, hsame, hend, hmore⟩ := ih hclosed
      (fun other hmem => hsettings ▸ hfields other (mem_cons_of_mem _ hmem))
      (fun other hmem => hsettings ▸ haccepted other (mem_cons_of_mem _ hmem))
    rw [append_assoc] at hend
    refine ⟨last, lastFile, lastEof, placeSession groups ++ more, ?_,
      hsame.trans hsettings, hend, ?_⟩
    · simp only [runSessions, hnext, ok_bind, hlast]
    · rw [flatten_cons, map_append]
      exact rel_append (spells_placeSession hspells) (hsettings ▸ hmore)

/-- Sessions that succeed were refused nothing. -/
theorem runSessions_refused (sessions : List (List WriteOp)) :
    ∀ {write : StorageWrite} {file : List Byte} {logicalEof : Nat} {placed : List Placed}
      {result : StorageWrite × List Byte × Nat}, Closed write file logicalEof placed →
    (∀ ops ∈ sessions, ∀ op ∈ ops, op.InFields write.settings) →
    write.runSessions file logicalEof sessions = .ok result →
    ∀ ops ∈ sessions, ∀ op ∈ ops, op.Accepted write.settings := by
  induction sessions with
  | nil =>
    intro write file logicalEof placed result _ _ _ ops hmem
    exact absurd hmem not_mem_nil
  | cons first rest ih =>
    intro write file logicalEof placed result h hfields hrun ops hmem
    have hfirst : ∀ op ∈ first, op.Accepted write.settings := by
      obtain ⟨next, hsession, _⟩ := bind_eq_ok.mp hrun
      exact runSession_refused h (hfields first mem_cons_self) hsession
    obtain ⟨next, newFile, newEof, groups, hnext, hsettings, hclosed, _⟩ :=
      runSession_spec h (hfields first mem_cons_self) hfirst
    rw [runSessions, hnext] at hrun
    cases hmem with
    | head => exact hfirst
    | tail _ hrest =>
      rw [← hsettings]
      exact ih hclosed (fun other hother => hsettings ▸
        hfields other (mem_cons_of_mem _ hother)) hrun ops hrest

/-- A new writer and a new file. -/
theorem closed_init (settings : StorageSettings) {memory : List Byte}
    (hmemory : memory.length = bufferedAppendMemoryLen
      settings.maxBufferWithCompressionOverrunLen settings.largeWriteLen) :
    Closed (storageWriteInit settings memory) [] 0 [] := by
  have hle := settings.le_maxBufferLen
  have hoverflow := settings.overflow_le
  constructor
  case idle =>
    refine ⟨⟨?_, ?_, hmemory⟩, rfl⟩
    · show 0 < settings.maxBufferLen + settings.overflowSize
      omega
    · show settings.maxBufferLen + settings.overflowSize ≤ 2 * settings.maxBufferLen
      omega
  case limit => rfl
  case firstRowNum => rfl
  case file_take =>
    show [] = List.replicate (padLen settings 0) 0
    rw [padLen_zero, replicate_zero]
  case eof_le => exact Nat.le_refl 0
  case headerPositions => rfl

end StorageWrite

end Greenplum.AoStorage
