/-
Skipping a block, `AppendOnlyStorageRead_SkipCurrentBlock`, against reading its content.
-/
import Greenplum.AoStorageRead

namespace Greenplum.AoStorage

open Fallible

namespace StorageRead

/-- Get a pointer to the content of a block that is neither large nor compressed. -/
def getBuffer (read : StorageRead) (current : ReadCurrent) :
    Except StorageError (List Byte × StorageRead) := do
  let (header, next) ← read.internalGetBuffer current
  return (header.drop current.info.contentOffset, next)

/-- Skip the fragments of a large content. -/
def skipLarge : Nat → Nat → StorageRead → Except StorageError StorageRead
  | 0, _, _ => .error .endlessLoop
  | fuel + 1, remainingLargeContentLen, read => do
      let next ← read.readNextBlock
      match next.current with
      | none => .error .unexpectedEndOfFile
      | some current =>
        if current.headerKind ≠ .smallContent then .error .unexpectedHeaderKind
        else do
          let (header, bufferedRead) ←
            next.bufferedRead.growBuffer current.info.overallBlockLen
          if header.length ≠ current.info.overallBlockLen then .error .shortBlock
          else if remainingLargeContentLen < current.info.uncompressedLen then
            .error .tooMuchData
          else
            let remaining := remainingLargeContentLen - current.info.uncompressedLen
            let skipped := { next with bufferedRead := bufferedRead }
            if remaining = 0 then return skipped
            else skipLarge fuel remaining skipped

/-- Skip the current logical block. -/
def skipCurrentBlock (read : StorageRead) (current : ReadCurrent) :
    Except StorageError StorageRead :=
  if current.isLarge then
    skipLarge (read.bufferedRead.fileLen + 1) current.info.uncompressedLen read
  else do
    let (_, next) ← read.internalGetBuffer current
    return next

/-- The faults of a content that only those who look at it can see. -/
def ContentFault (problem : StorageError) : Prop :=
  problem = .blockChecksum ∨ problem = .decompressionMissing ∨ problem = .uncompressedLen

/-- The result of skipping beside the result of reading the content.  Skipping gets hold of
a fragment before it looks for too much data. -/
inductive Agrees : Except StorageError StorageRead →
    Except StorageError (List Byte × StorageRead) → Prop
  | done (bytes : List Byte) (last : StorageRead) : Agrees (.ok last) (.ok (bytes, last))
  | failed (problem : StorageError) : Agrees (.error problem) (.error problem)
  | tooMuch (problem : StorageError) : Agrees (.error problem) (.error .tooMuchData)
  | fault (skipped : Except StorageError StorageRead) {problem : StorageError}
      (hfault : ContentFault problem) : Agrees skipped (.error problem)

variable {read next : StorageRead} {current : ReadCurrent}

/-- Who gets hold of a block may only fail at its checksum. -/
theorem internalGetBuffer_ok {header : List Byte} {bufferedRead : BufferedRead}
    (hgrow : read.bufferedRead.growBuffer current.info.overallBlockLen =
      .ok (header, bufferedRead)) (hlength : header.length = current.info.overallBlockLen) :
    read.internalGetBuffer current = .ok (header, { read with bufferedRead := bufferedRead }) ∨
      read.internalGetBuffer current = .error .blockChecksum := by
  rw [internalGetBuffer, hgrow]
  dsimp only [ok_bind]
  rw [if_neg (not_not.mpr hlength)]
  split_ifs with hchecksum
  · exact .inr rfl
  · exact .inl rfl

theorem regularContent_error {problem : StorageError}
    (hget : read.internalGetBuffer current = .error problem) :
    read.regularContent current = .error problem := by
  rw [regularContent, hget]
  rfl

/-- Who has got hold of a block may only fail at the decompression. -/
theorem regularContent_ok {header : List Byte}
    (hget : read.internalGetBuffer current = .ok (header, next)) :
    Agrees (.ok next) (read.regularContent current) := by
  rw [regularContent, hget]
  dsimp only [ok_bind]
  split_ifs with hplain
  · exact .done _ next
  · cases read.settings.compressor with
    | none => exact .fault _ (.inr (.inl rfl))
    | some compressor =>
      dsimp only
      split_ifs with hlength
      · exact .fault _ (.inr (.inr rfl))
      · exact .done _ next

/-- A block that was got hold of in full. -/
theorem regularContent_agrees {grown : List Byte × BufferedRead}
    (hgrow : read.bufferedRead.growBuffer current.info.overallBlockLen = .ok grown)
    (hlength : grown.1.length = current.info.overallBlockLen) :
    Agrees (.ok { read with bufferedRead := grown.2 }) (read.regularContent current) := by
  obtain hget | hget := internalGetBuffer_ok hgrow hlength
  · exact regularContent_ok hget
  · rw [regularContent_error hget]
    exact .fault _ (.inl rfl)

theorem Agrees.prepend {skipped : Except StorageError StorageRead}
    {content : Except StorageError (List Byte × StorageRead)} (h : Agrees skipped content)
    (bytes : List Byte) :
    Agrees skipped (content.bind fun more => pure (bytes ++ more.1, more.2)) := by
  cases h with
  | done more last => exact .done _ last
  | failed problem => exact .failed problem
  | tooMuch problem => exact .tooMuch problem
  | fault _ hfault => exact .fault _ hfault

/-- Fragment by fragment. -/
theorem skipLarge_agrees (fuel : Nat) : ∀ (remaining : Nat) (read : StorageRead),
    Agrees (skipLarge fuel remaining read) (largeContent fuel remaining read) := by
  induction fuel with
  | zero => exact fun _ _ => .failed _
  | succ fuel ih =>
    intro remaining read
    rw [skipLarge, largeContent]
    cases hread : read.readNextBlock with
    | error problem => exact .failed problem
    | ok next =>
      simp only [bind, Except.bind]
      cases hcurrent : next.current with
      | none => exact .failed _
      | some current =>
        dsimp only
        by_cases hkind : current.headerKind ≠ .smallContent
        · rw [if_pos hkind, if_pos hkind]
          exact .failed _
        rw [if_neg hkind, if_neg hkind]
        by_cases hmuch : remaining < current.info.uncompressedLen
        · simp only [if_pos hmuch]
          cases next.bufferedRead.growBuffer current.info.overallBlockLen with
          | error problem => exact .tooMuch problem
          | ok grown =>
            dsimp only
            split_ifs
            · exact .tooMuch _
            · exact .failed _
        · simp only [if_neg hmuch]
          cases hgrow : next.bufferedRead.growBuffer current.info.overallBlockLen with
          | error problem =>
            rw [regularContent_error (by rw [internalGetBuffer, hgrow]; rfl)]
            exact .failed problem
          | ok grown =>
            dsimp only
            by_cases hlength : grown.1.length = current.info.overallBlockLen
            · rw [if_neg (not_not.mpr hlength), ← hcurrent]
              have hblock := regularContent_agrees hgrow hlength
              generalize next.regularContent current = content at hblock ⊢
              cases hblock with
              | fault _ hfault => exact .fault _ hfault
              | done bytes =>
                split_ifs with hlast
                · exact .done bytes _
                · exact (ih _ _).prepend bytes
            · rw [if_pos hlength, regularContent_error
                (by rw [internalGetBuffer, hgrow]; exact if_pos hlength)]
              exact .failed _

theorem agrees (read : StorageRead) (current : ReadCurrent) :
    Agrees (read.skipCurrentBlock current) (read.content current) := by
  rw [skipCurrentBlock, content]
  split_ifs with hlarge
  · exact skipLarge_agrees _ _ read
  · cases hget : read.internalGetBuffer current with
    | error problem =>
      rw [regularContent_error hget]
      exact .failed problem
    | ok got => exact regularContent_ok hget

/-- Skipping leaves the reader where reading the content leaves it, whatever the file and the
state of the reader are.  If one of them fails because of the fragments, so does the other,
unless a fault of the content has come before. -/
theorem skipCurrentBlock_agrees (read : StorageRead) (current : ReadCurrent) :
    (∀ bytes last, read.content current = .ok (bytes, last) →
      read.skipCurrentBlock current = .ok last) ∧
    (∀ last, read.skipCurrentBlock current = .ok last →
      (∃ bytes, read.content current = .ok (bytes, last)) ∨
        ∃ problem, read.content current = .error problem ∧ ContentFault problem) ∧
    (∀ problem, read.skipCurrentBlock current = .error problem →
      ∃ problem', read.content current = .error problem' ∧
        (problem' = problem ∨ problem' = .tooMuchData ∨ ContentFault problem')) ∧
    (∀ problem, read.content current = .error problem → ¬ ContentFault problem →
      ∃ problem', read.skipCurrentBlock current = .error problem' ∧
        (problem' = problem ∨ problem = .tooMuchData)) ∧
    (current.isLarge = false → ∀ last, (∃ bytes, read.getBuffer current = .ok (bytes, last)) ↔
      read.skipCurrentBlock current = .ok last) := by
  have hagrees := agrees read current
  refine ⟨?_, ?_, ?_, ?_, ?_⟩
  · intro bytes last hcontent
    rw [hcontent] at hagrees
    generalize read.skipCurrentBlock current = skipped at hagrees ⊢
    cases hagrees
    rfl
  · intro last hskip
    rw [hskip] at hagrees
    generalize read.content current = content at hagrees ⊢
    cases hagrees with
    | done bytes => exact .inl ⟨bytes, rfl⟩
    | fault _ hfault => exact .inr ⟨_, rfl, hfault⟩
  · intro problem hskip
    rw [hskip] at hagrees
    generalize read.content current = content at hagrees ⊢
    cases hagrees with
    | failed => exact ⟨_, rfl, .inl rfl⟩
    | tooMuch => exact ⟨_, rfl, .inr (.inl rfl)⟩
    | fault _ hfault => exact ⟨_, rfl, .inr (.inr hfault)⟩
  · intro problem hcontent hnone
    rw [hcontent] at hagrees
    generalize read.skipCurrentBlock current = skipped at hagrees ⊢
    cases hagrees with
    | failed => exact ⟨_, rfl, .inl rfl⟩
    | tooMuch problem => exact ⟨problem, rfl, .inr rfl⟩
    | fault _ hfault => exact absurd hfault hnone
  · intro hsmall last
    rw [getBuffer, skipCurrentBlock, hsmall]
    cases read.internalGetBuffer current with
    | error problem => exact ⟨fun ⟨_, hget⟩ => (nomatch hget), fun hskip => (nomatch hskip)⟩
    | ok got =>
      constructor
      · rintro ⟨bytes, hget⟩
        cases hget
        rfl
      · intro hskip
        cases hskip
        exact ⟨_, rfl⟩

end StorageRead

end Greenplum.AoStorage
