/-
gp_segment_configuration as the fault tolerance service keeps it: the entries
of a content, what an update of one pair does to the table, and that updates of
different contents do not meet.
-/
import Greenplum.FtsProbe

namespace Greenplum.Fts

open KeyedRows

section

variable {row : CdbComponentDatabaseInfo} {isInSync : Bool} {newPrimaryRole newMirrorRole : Role}

section

variable (catalog : List CdbComponentDatabaseInfo) (primary mirror : CdbComponentDatabaseInfo)

/-- The content of `primary` has exactly these two entries. -/
structure Paired : Prop where
  primary_mem : primary ∈ catalog
  mirror_mem : mirror ∈ catalog
  content : mirror.segindex = primary.segindex
  primary_role : primary.role = .primary
  mirror_role : mirror.role = .mirror
  only : ∀ row ∈ catalog, row.segindex = primary.segindex → row = primary ∨ row = mirror

/-- What the entries of a content say about each other. -/
structure Consistent : Prop where
  mode : primary.mode = mirror.mode
  up : primary.status = .up
  sync : primary.mode = .inSync → mirror.status = .up

/-- The catalog as the service keeps it: `dbid` is unique, and every content of
a segment has one primary and one mirror that are consistent. -/
structure Safe : Prop where
  dbids : (catalog.map CdbComponentDatabaseInfo.dbid).Nodup
  pairs : ∀ row ∈ catalog, 0 ≤ row.segindex → ∃ primary mirror,
    primary.segindex = row.segindex ∧ Paired catalog primary mirror ∧ Consistent primary mirror

end

section

variable (row : CdbComponentDatabaseInfo)

def assign (role : Role) (isSegmentAlive isInSync : Bool) : CdbComponentDatabaseInfo :=
  { row with
    role := role, status := statusOf isSegmentAlive, mode := modeOf isInSync }

theorem statusOf_segmentIsAlive : statusOf (segmentIsAlive row) = row.status := by
  rcases row with ⟨dbid, segindex, role, mode, status⟩
  cases status <;> rfl

theorem modeOf_segmentIsInSync : modeOf (segmentIsInSync row) = row.mode := by
  rcases row with ⟨dbid, segindex, role, mode, status⟩
  cases mode <;> rfl

theorem assign_self : assign row row.role (segmentIsAlive row) (segmentIsInSync row) = row := by
  rw [assign, statusOf_segmentIsAlive, modeOf_segmentIsInSync]

end

/-- The catalog after the rows of one content were replaced. -/
structure Replaced (before after : List CdbComponentDatabaseInfo)
    (content : Int) (left right : CdbComponentDatabaseInfo) : Prop where
  dbids : after.map CdbComponentDatabaseInfo.dbid = before.map CdbComponentDatabaseInfo.dbid
  rows : ∀ row, row ∈ after ↔ (row ∈ before ∧ row.segindex ≠ content) ∨ row = left ∨ row = right

variable {catalog : List CdbComponentDatabaseInfo} {primary mirror : CdbComponentDatabaseInfo}

/-- One of the two conditional updates of `updateConfiguration`. -/
theorem updateIf_spec {role : Role} (update : Bool) {isSegmentAlive : Bool}
    (hdbids : (catalog.map CdbComponentDatabaseInfo.dbid).Nodup) (hrow : row ∈ catalog)
    (hskip : update = false → assign row role isSegmentAlive isInSync = row) :
    ∃ after, updateIf update row.dbid role isSegmentAlive isInSync catalog = some after ∧
      after.map CdbComponentDatabaseInfo.dbid = catalog.map CdbComponentDatabaseInfo.dbid ∧
      ∀ other, other ∈ after ↔ (other ∈ catalog ∧ other.dbid ≠ row.dbid) ∨
        other = assign row role isSegmentAlive isInSync := by
  cases update with
  | true =>
    exact updateRow_spec hdbids hrow rfl
  | false =>
    refine ⟨catalog, rfl, rfl, fun other => ?_⟩
    rw [hskip rfl]
    constructor
    · intro hmem
      by_cases heq : other.dbid = row.dbid
      · exact .inr (List.inj_on_of_nodup_map hdbids hmem hrow heq)
      · exact .inl ⟨hmem, heq⟩
    · rintro (⟨hmem, _⟩ | rfl)
      · exact hmem
      · exact hrow

section

variable (h : Paired catalog primary mirror) (hrow : row ∈ catalog)
  (hcontent : row.segindex = primary.segindex)

include h hrow hcontent

theorem Paired.eq_primary (hrole : row.role = .primary) : row = primary := by
  rcases h.only row hrow hcontent with heq | heq
  · exact heq
  · rw [heq, h.mirror_role] at hrole
    cases hrole

theorem Paired.eq_mirror (hrole : row.role = .mirror) : row = mirror := by
  rcases h.only row hrow hcontent with heq | heq
  · rw [heq, h.primary_role] at hrole
    cases hrole
  · exact heq

end

theorem Paired.dbid_ne (h : Paired catalog primary mirror)
    (hdbids : (catalog.map CdbComponentDatabaseInfo.dbid).Nodup) : mirror.dbid ≠ primary.dbid := by
  intro heq
  have hsame := List.inj_on_of_nodup_map hdbids h.mirror_mem h.primary_mem heq
  have hrole := h.primary_role
  rw [← hsame, h.mirror_role] at hrole
  cases hrole

/-- Both conditional updates together. -/
theorem updateBoth_spec {isPrimaryAlive isMirrorAlive : Bool} (updatePrimary updateMirror : Bool)
    (hdbids : (catalog.map CdbComponentDatabaseInfo.dbid).Nodup)
    (h : Paired catalog primary mirror) (hprimary : updatePrimary = false →
      assign primary newPrimaryRole isPrimaryAlive isInSync = primary)
    (hmirror : updateMirror = false → assign mirror newMirrorRole isMirrorAlive isInSync = mirror) :
    ∃ afterPrimary afterMirror, updateIf updatePrimary primary.dbid newPrimaryRole isPrimaryAlive
        isInSync catalog = some afterPrimary ∧
      updateIf updateMirror mirror.dbid newMirrorRole isMirrorAlive isInSync
        afterPrimary = some afterMirror ∧ Replaced catalog afterMirror primary.segindex
        (assign primary newPrimaryRole isPrimaryAlive isInSync)
        (assign mirror newMirrorRole isMirrorAlive isInSync) := by
  have hne := h.dbid_ne hdbids
  rcases updateIf_spec updatePrimary hdbids h.primary_mem hprimary with
    ⟨afterPrimary, hfirst, hkeys, hrows⟩
  have hmem : mirror ∈ afterPrimary := (hrows mirror).mpr (.inl ⟨h.mirror_mem, hne⟩)
  rcases updateIf_spec updateMirror (hkeys ▸ hdbids) hmem hmirror with
    ⟨afterMirror, hsecond, hkeys', hrows'⟩
  refine ⟨afterPrimary, afterMirror, hfirst, hsecond, hkeys'.trans hkeys, ?_⟩
  intro row
  rw [hrows', hrows]
  constructor
  · rintro (⟨⟨hold, hnotPrimary⟩ | hnew, hnotMirror⟩ | hnew)
    · refine .inl ⟨hold, fun hcontent => ?_⟩
      rcases h.only row hold hcontent with rfl | rfl
      · exact hnotPrimary rfl
      · exact hnotMirror rfl
    · exact .inr (.inl hnew)
    · exact .inr (.inr hnew)
  · rintro (⟨hold, hcontent⟩ | rfl | rfl)
    · refine .inl ⟨.inl ⟨hold, fun heq => ?_⟩, fun heq => ?_⟩
      · have hsame := List.inj_on_of_nodup_map hdbids hold h.primary_mem heq
        exact hcontent (congrArg _ hsame)
      · have hsame := List.inj_on_of_nodup_map hdbids hold h.mirror_mem heq
        exact hcontent ((congrArg _ hsame).trans h.content)
    · exact .inl ⟨.inr rfl, hne.symm⟩
    · exact .inr rfl

/-- The update gives both rows of the content the new values. -/
theorem updateConfiguration_spec {config : Configuration}
    (isInSync isPrimaryAlive isMirrorAlive : Bool)
    (hdbids : (config.catalog.map CdbComponentDatabaseInfo.dbid).Nodup)
    (h : Paired config.catalog primary mirror) (hmode : primary.mode = mirror.mode)
    (hroles : (newPrimaryRole = .primary ∧ newMirrorRole = .mirror) ∨
      isInSync ≠ segmentIsInSync primary) :
    ∃ after, updateConfiguration primary mirror newPrimaryRole newMirrorRole
        isInSync isPrimaryAlive isMirrorAlive config = some after ∧
      Replaced config.catalog after.catalog primary.segindex
        (assign primary newPrimaryRole isPrimaryAlive isInSync)
        (assign mirror newMirrorRole isMirrorAlive isInSync) := by
  have hsync : segmentIsInSync primary = segmentIsInSync mirror := by
    rw [segmentIsInSync, segmentIsInSync, hmode]
  -- a row that is not updated has all its new values already
  have hkeep : (isInSync != segmentIsInSync primary) = false →
      isInSync = segmentIsInSync primary ∧ newPrimaryRole = primary.role ∧
        newMirrorRole = mirror.role := by
    intro hsame
    have heq : isInSync = segmentIsInSync primary := by simpa using hsame
    rcases hroles with ⟨hprimary, hmirror⟩ | hne
    · exact ⟨heq, hprimary.trans h.primary_role.symm, hmirror.trans h.mirror_role.symm⟩
    · exact absurd heq hne
  have hprimary : (isPrimaryAlive != segmentIsAlive primary ||
      (isInSync != segmentIsInSync primary)) = false →
      assign primary newPrimaryRole isPrimaryAlive isInSync = primary := by
    intro hskip
    rw [Bool.or_eq_false_iff] at hskip
    rcases hkeep hskip.2 with ⟨hin, hrole, _⟩
    have halive : isPrimaryAlive = segmentIsAlive primary := by
      simpa using hskip.1
    rw [hin, hrole, halive, assign_self]
  have hmirror : (isMirrorAlive != segmentIsAlive mirror ||
      (isInSync != segmentIsInSync primary)) = false →
      assign mirror newMirrorRole isMirrorAlive isInSync = mirror := by
    intro hskip
    rw [Bool.or_eq_false_iff] at hskip
    rcases hkeep hskip.2 with ⟨hin, _, hrole⟩
    have halive : isMirrorAlive = segmentIsAlive mirror := by
      simpa using hskip.1
    rw [hin, hsync, hrole, halive, assign_self]
  rcases updateBoth_spec _ _ hdbids h hprimary hmirror with
    ⟨afterPrimary, afterMirror, hfirst, hsecond, hreplaced⟩
  unfold updateConfiguration
  dsimp only
  split
  case isTrue =>
    rw [hfirst, Option.bind_eq_bind, Option.bind_some, hsecond]
    exact ⟨_, rfl, hreplaced⟩
  case isFalse hnone =>
    rw [Bool.not_eq_true, Bool.or_eq_false_iff] at hnone
    rw [hnone.1] at hfirst
    rw [hnone.2] at hsecond
    cases hfirst
    cases hsecond
    exact ⟨config, rfl, hreplaced⟩

/-- What the processing of the contents in `touched` does to the catalog. -/
structure CatalogStep (before after : List CdbComponentDatabaseInfo)
    (touched : Int → Prop) : Prop where
  safe : Safe after
  frame : ∀ row, ¬touched row.segindex → (row ∈ after ↔ row ∈ before)
  persists : ∀ row ∈ before, ∃ row' ∈ after, row'.dbid = row.dbid ∧ row'.segindex = row.segindex
  swap : ∀ row ∈ before, ∀ row' ∈ after, row'.dbid = row.dbid →
    row'.role ≠ row.role → ∃ mirror ∈ before,
      mirror.segindex = row.segindex ∧ mirror.role = .mirror ∧
        mirror.mode = .inSync ∧ mirror.status = .up

theorem CatalogStep.refl (h : Safe catalog) (touched : Int → Prop) :
    CatalogStep catalog catalog touched where
  safe := h
  frame _ _ := Iff.rfl
  persists row hrow := ⟨row, hrow, rfl, rfl⟩
  swap _ hrow _ hrow' heq hne :=
    absurd (congrArg _ (List.inj_on_of_nodup_map h.dbids hrow' hrow heq)) hne

/-- Steps on different contents do not meet. -/
theorem CatalogStep.trans {before middle after : List CdbComponentDatabaseInfo}
    {content : Int} {touched : Int → Prop} (hfirst : CatalogStep before middle (· = content))
    (hrest : CatalogStep middle after touched) (hfresh : ¬touched content) :
    CatalogStep before after fun other => other = content ∨ touched other where
  safe := hrest.safe
  frame row hnot := by
    rw [not_or] at hnot
    exact (hrest.frame row hnot.2).trans (hfirst.frame row hnot.1)
  persists row hrow := by
    rcases hfirst.persists row hrow with ⟨row₁, hrow₁, hdbid₁, hcontent₁⟩
    rcases hrest.persists row₁ hrow₁ with ⟨row₂, hrow₂, hdbid₂, hcontent₂⟩
    exact ⟨row₂, hrow₂, hdbid₂.trans hdbid₁, hcontent₂.trans hcontent₁⟩
  swap := by
    intro row hrow row' hrow' heq hne
    rcases hfirst.persists row hrow with ⟨row₁, hrow₁, hdbid₁, hcontent₁⟩
    by_cases hcontent : row.segindex = content
    · -- the later steps leave the rows of this content alone
      have hstill : row₁ ∈ after :=
        (hrest.frame row₁ (by rw [hcontent₁, hcontent]; exact hfresh)).mpr hrow₁
      have hsame : row' = row₁ := List.inj_on_of_nodup_map hrest.safe.dbids
        hrow' hstill (heq.trans hdbid₁.symm)
      exact hfirst.swap row hrow row₁ hrow₁ hdbid₁ (hsame ▸ hne)
    · have hmiddle : row ∈ middle := (hfirst.frame row hcontent).mpr hrow
      rcases hrest.swap row hmiddle row' hrow' heq hne with
        ⟨mirror, hmirror, hseg, hfacts⟩
      exact ⟨mirror, (hfirst.frame mirror (hseg ▸ hcontent)).mp hmirror, hseg, hfacts⟩

section

variable {before after : List CdbComponentDatabaseInfo} {content : Int}
  {left right : CdbComponentDatabaseInfo}

section

variable (h : Replaced before after content left right)

include h

theorem Replaced.symm : Replaced before after content right left :=
  ⟨h.dbids, fun row => (h.rows row).trans (or_congr_right or_comm)⟩

theorem Replaced.paired (hleft : left.segindex = content) (hright : right.segindex = content)
    (hprimary : left.role = .primary) (hmirror : right.role = .mirror) :
    Paired after left right where
  primary_mem := (h.rows left).mpr (.inr (.inl rfl))
  mirror_mem := (h.rows right).mpr (.inr (.inr rfl))
  content := hright.trans hleft.symm
  primary_role := hprimary
  mirror_role := hmirror
  only row hrow hcontent := by
    rcases (h.rows row).mp hrow with ⟨_, hne⟩ | hnew
    · exact absurd (hcontent.trans hleft) hne
    · exact hnew

theorem Replaced.frame (hleft : left.segindex = content) (hright : right.segindex = content)
    (row : CdbComponentDatabaseInfo) (hrow : row.segindex ≠ content) :
    row ∈ after ↔ row ∈ before := by
  rw [h.rows]
  constructor
  · rintro (⟨hold, _⟩ | rfl | rfl)
    · exact hold
    · exact absurd hleft hrow
    · exact absurd hright hrow
  · exact fun hold => .inl ⟨hold, hrow⟩

end

theorem Paired.frame (h : Paired before primary mirror)
    (hframe : ∀ row, row.segindex = primary.segindex →
      (row ∈ after ↔ row ∈ before)) : Paired after primary mirror where
  primary_mem := (hframe _ rfl).mpr h.primary_mem
  mirror_mem := (hframe _ h.content).mpr h.mirror_mem
  content := h.content
  primary_role := h.primary_role
  mirror_role := h.mirror_role
  only row hrow hcontent := h.only row ((hframe row hcontent).mp hrow) hcontent

theorem Replaced.safe (h : Replaced before after content left right)
    (hbefore : Safe before) (hleft : left.segindex = content)
    (hright : right.segindex = content) (hprimary : left.role = .primary)
    (hmirror : right.role = .mirror) (hpair : Consistent left right) : Safe after where
  dbids := h.dbids ▸ hbefore.dbids
  pairs row hrow hpos := by
    by_cases hcontent : row.segindex = content
    · exact ⟨left, right, hleft.trans hcontent.symm, h.paired hleft hright hprimary hmirror, hpair⟩
    · have hold := (h.frame hleft hright row hcontent).mp hrow
      rcases hbefore.pairs row hold hpos with
        ⟨primary, mirror, hseg, hpaired, hconsistent⟩
      refine ⟨primary, mirror, hseg, hpaired.frame fun other hother => ?_, hconsistent⟩
      exact h.frame hleft hright other (by rw [hother, hseg]; exact hcontent)

/-- The update of one pair as a step of the catalog. -/
theorem Replaced.step (h : Replaced before after content left right)
    (hpaired : Paired before primary mirror)
    (hcontent : primary.segindex = content) (hafter : Safe after)
    (hleft : left.dbid = primary.dbid ∧ left.segindex = content)
    (hright : right.dbid = mirror.dbid ∧ right.segindex = content)
    (hswap : (left.role = .primary ∧ right.role = .mirror) ∨
      (mirror.mode = .inSync ∧ mirror.status = .up)) : CatalogStep before after (· = content) where
  safe := hafter
  frame := h.frame hleft.2 hright.2
  persists := by
    intro row hrow
    by_cases hseg : row.segindex = content
    · rcases hpaired.only row hrow (hseg.trans hcontent.symm) with rfl | rfl
      · exact ⟨left, (h.rows left).mpr (.inr (.inl rfl)), hleft.1, hleft.2.trans hseg.symm⟩
      · exact ⟨right, (h.rows right).mpr (.inr (.inr rfl)), hright.1, hright.2.trans hseg.symm⟩
    · exact ⟨row, (h.frame hleft.2 hright.2 row hseg).mpr hrow, rfl, rfl⟩
  swap := by
    intro row hrow row' hrow' heq hne
    have hsame : ∀ other ∈ after, other.dbid = row.dbid → row' = other :=
      fun other hother hdbid => List.inj_on_of_nodup_map hafter.dbids hrow'
        hother (heq.trans hdbid.symm)
    by_cases hseg : row.segindex = content
    · rcases hswap with ⟨hprimary, hmirror⟩ | hgood
      · -- the rows of the pair keep their roles
        rcases hpaired.only row hrow (hseg.trans hcontent.symm) with rfl | rfl
        · have hrow₁ := hsame left ((h.rows left).mpr (.inr (.inl rfl))) hleft.1
          rw [hrow₁, hprimary, hpaired.primary_role] at hne
          exact absurd rfl hne
        · have hrow₁ := hsame right ((h.rows right).mpr (.inr (.inr rfl))) hright.1
          rw [hrow₁, hmirror, hpaired.mirror_role] at hne
          exact absurd rfl hne
      · exact ⟨mirror, hpaired.mirror_mem,
          (hpaired.content.trans hcontent).trans hseg.symm, hpaired.mirror_role, hgood⟩
    · have hstill := (h.frame hleft.2 hright.2 row hseg).mpr hrow
      exact absurd (congrArg _ (hsame row hstill rfl)) hne

end

end

end Greenplum.Fts
