/-
The entries of one column group of a segment file, seen as one sequence.  Every
block that was inserted lies under exactly one entry, the last one that begins at
or before it.
-/
import Greenplum.BlockDirectory
import Mathlib.Data.List.Chain

namespace Greenplum.BlockDirectory

open BinarySearch List Option

section

variable {init : List MinipageEntry} {last : MinipageEntry}

def Block.entry (block : Block) : MinipageEntry :=
  ⟨block.firstRowNum, block.fileOffset, block.rowCount⟩

/-- The latest entry ends where the next one begins. -/
def closeLast (entries : List MinipageEntry) (firstRowNum : Int) : List MinipageEntry :=
  entries.modifyLast fun entry =>
    { entry with rowCount := firstRowNum - entry.firstRowNum }

/-- What inserting a block does to the sequence of entries: a block close to the
latest entry is left out. -/
def addBlock (settings : Settings) (entries : List MinipageEntry) (block : Block) :
    List MinipageEntry :=
  if block.rowCount = 0 then entries
  else
    match entries.getLast? with
    | some last =>
      if settings.entryMinRange > 0 ∧
          block.fileOffset - last.fileOffset < settings.entryMinRange then entries
      else closeLast entries block.firstRowNum ++ [block.entry]
    | none => [block.entry]

/-- The entries after a sequence of blocks. -/
def entriesOf (settings : Settings) (blocks : List Block) : List MinipageEntry :=
  blocks.foldl (addBlock settings) []

/-- The rows and the place of one block come before those of the other. -/
def Block.Before (block later : Block) : Prop :=
  block.firstRowNum < later.firstRowNum ∧ block.firstRowNum + block.rowCount ≤ later.firstRowNum ∧
    block.fileOffset < later.fileOffset

instance : DecidableRel Block.Before :=
  fun _ _ => inferInstanceAs (Decidable (_ ∧ _ ∧ _))

/-- Blocks as they are written to a file. -/
structure Increasing (blocks : List Block) : Prop where
  order : blocks.Pairwise Block.Before
  rows : ∀ block ∈ blocks, 0 ≤ block.rowCount

/-- The first row that is in a block. -/
def begins (blocks : List Block) : Option Int :=
  (blocks.find? (·.rowCount ≠ 0)).map Block.firstRowNum

/-- The block lies under the entry, which is followed by `next`. -/
structure Covers (settings : Settings) (entry : MinipageEntry)
    (next : Option MinipageEntry) (block : Block) : Prop where
  first : entry.firstRowNum ≤ block.firstRowNum
  offset : entry.fileOffset ≤ block.fileOffset
  exact : settings.entryMinRange = 0 → entry.fileOffset = block.fileOffset ∧
    block.firstRowNum + block.rowCount ≤ entry.firstRowNum + entry.rowCount
  next : ∀ later ∈ next, block.firstRowNum + block.rowCount ≤ later.firstRowNum ∧
    block.fileOffset < later.fileOffset

/-- The sequence of entries is a directory of the blocks. -/
structure Indexed (settings : Settings) (blocks : List Block)
    (entries : List MinipageEntry) : Prop where
  begins_eq : entries.head?.map MinipageEntry.firstRowNum = begins blocks
  placed : ∀ entry ∈ entries, ∃ block ∈ blocks,
    entry.firstRowNum = block.firstRowNum ∧ entry.fileOffset = block.fileOffset
  positive : ∀ entry ∈ entries, 0 < entry.rowCount
  order : entries.Pairwise fun entry later =>
    entry.firstRowNum + entry.rowCount ≤ later.firstRowNum
  joined : entries.IsChain fun entry next =>
    entry.firstRowNum + entry.rowCount = next.firstRowNum
  covers : ∀ block ∈ blocks, 0 < block.rowCount → ∃ i entry,
    entries[i]? = some entry ∧ Covers settings entry entries[i + 1]? block

variable {settings : Settings} {blocks : List Block} {entries : List MinipageEntry} {block : Block}

theorem closeLast_concat (entries : List MinipageEntry) (last : MinipageEntry) (firstRowNum : Int) :
    closeLast (entries ++ [last]) firstRowNum =
      entries ++ [{ last with rowCount := firstRowNum - last.firstRowNum }] :=
  modifyLast_concat _ _ _

theorem begins_append_of_isSome (hsome : (begins blocks).isSome) :
    begins (blocks ++ [block]) = begins blocks := by
  rw [begins, isSome_map] at hsome
  rw [begins, begins, find?_append, or_of_isSome hsome]

theorem begins_append_of_zero (hzero : block.rowCount = 0) :
    begins (blocks ++ [block]) = begins blocks := by
  have hnone : [block].find? (·.rowCount ≠ 0) = none := by
    simp [hzero]
  rw [begins, begins, find?_append, hnone, or_none]

theorem rowCount_eq_zero_of_begins (hnone : begins blocks = none) :
    ∀ block ∈ blocks, block.rowCount = 0 := by
  intro block hblock
  have hfind := find?_eq_none.mp (map_eq_none_iff.mp hnone) block hblock
  simpa using hfind

theorem Increasing.before (hincreasing : Increasing (blocks ++ [block])) :
    ∀ earlier ∈ blocks, earlier.Before block := by
  intro earlier hearlier
  exact (pairwise_append.mp hincreasing.order).2.2 earlier hearlier block (mem_singleton_self block)

/-- The first entry of the directory. -/
theorem Indexed.first (h : Indexed settings blocks []) (hrows : 0 < block.rowCount) :
    Indexed settings (blocks ++ [block]) [block.entry] := by
  have hempty := rowCount_eq_zero_of_begins h.begins_eq.symm
  have hfind : blocks.find? (·.rowCount ≠ 0) = none := map_eq_none_iff.mp h.begins_eq.symm
  refine ⟨?_, ?_, ?_, pairwise_singleton _ _, List.IsChain.singleton _, ?_⟩
  · have hsome : [block].find? (·.rowCount ≠ 0) = some block := by
      rw [find?_cons_of_pos]
      exact decide_eq_true (ne_of_gt hrows)
    rw [begins, find?_append, hfind, none_or, hsome]
    rfl
  · exact forall_mem_singleton.mpr ⟨block, mem_concat_self, rfl, rfl⟩
  · exact forall_mem_singleton.mpr hrows
  · intro other hother hpositive
    rcases mem_append.mp hother with hold | hnew
    · exact absurd (hempty other hold) (ne_of_gt hpositive)
    · rw [mem_singleton.mp hnew]
      refine ⟨0, block.entry, rfl, le_refl _, le_refl _, fun _ => ⟨rfl, le_refl _⟩, ?_⟩
      intro later hlater
      cases hlater

/-- A block that needs no entry of its own. -/
theorem Indexed.keep (h : Indexed settings blocks entries)
    (hbegins : begins (blocks ++ [block]) = begins blocks)
    (hcovers : 0 < block.rowCount → ∃ i entry,
      entries[i]? = some entry ∧ Covers settings entry entries[i + 1]? block) :
    Indexed settings (blocks ++ [block]) entries := by
  refine ⟨h.begins_eq.trans hbegins.symm, ?_, h.positive, h.order, h.joined, ?_⟩
  · intro entry hentry
    obtain ⟨earlier, hearlier, hplace⟩ := h.placed entry hentry
    exact ⟨earlier, mem_append_left _ hearlier, hplace⟩
  · exact forall_mem_append.mpr ⟨h.covers, forall_mem_singleton.mpr hcovers⟩

/-- An earlier block stays under its entry when the latest entry is closed. -/
theorem covers_close {closed : MinipageEntry} {other : Block}
    (hfirst : closed.firstRowNum = last.firstRowNum) (hoffset : closed.fileOffset = last.fileOffset)
    (hend : closed.firstRowNum + closed.rowCount = block.firstRowNum)
    (hold : ∃ i entry, (init ++ [last])[i]? = some entry ∧
      Covers settings entry (init ++ [last])[i + 1]? other) (hbefore : other.Before block) :
    ∃ i entry, (init ++ [closed, block.entry])[i]? = some entry ∧
      Covers settings entry (init ++ [closed, block.entry])[i + 1]? other := by
  obtain ⟨i, entry, hentry, hcovers⟩ := hold
  rcases lt_trichotomy i init.length with hlt | rfl | hgt
  · -- what follows the entry begins where it did
    refine ⟨i, entry, ?_, hcovers.first, hcovers.offset, hcovers.exact, ?_⟩
    · rw [getElem?_append_left hlt] at hentry ⊢
      exact hentry
    · intro later hlater
      rcases lt_or_ge (i + 1) init.length with hinside | hborder
      · apply hcovers.next later
        rw [getElem?_append_left hinside] at hlater ⊢
        exact hlater
      · have hindex : i + 1 = init.length := by omega
        have hnext := hcovers.next last (by rw [hindex, getElem?_concat_length]; rfl)
        rw [hindex, getElem?_append_right (Nat.le_refl _), Nat.sub_self,
          getElem?_cons_zero, mem_some_iff] at hlater
        rw [← hlater, hfirst, hoffset]
        exact hnext
  · rw [getElem?_concat_length, some.injEq] at hentry
    subst hentry
    refine ⟨init.length, closed, ?_, hfirst ▸ hcovers.first, hoffset ▸ hcovers.offset, ?_, ?_⟩
    · rw [getElem?_append_right (Nat.le_refl _), Nat.sub_self]
      rfl
    · intro hzero
      rw [hoffset, hend]
      exact ⟨(hcovers.exact hzero).1, hbefore.2.1⟩
    · intro later hlater
      rw [getElem?_append_right (Nat.le_add_right _ 1), Nat.add_sub_cancel_left] at hlater
      have hlater' : block.entry = later := some.inj hlater
      rw [← hlater']
      exact hbefore.2
  · rw [getElem?_eq_none] at hentry
    · cases hentry
    · rw [length_append, length_singleton]
      omega

section

variable (h : Indexed settings blocks (init ++ [last]))

include h

theorem Indexed.begins_concat : begins (blocks ++ [block]) = begins blocks := by
  apply begins_append_of_isSome
  rw [← h.begins_eq, isSome_map]
  cases init <;> rfl

/-- The block is left out: it lies under the latest entry. -/
theorem Indexed.skip (hincreasing : Increasing (blocks ++ [block]))
    (hrange : settings.entryMinRange > 0) :
    Indexed settings (blocks ++ [block]) (init ++ [last]) := by
  refine h.keep h.begins_concat fun _ => ?_
  obtain ⟨earlier, hearlier, hfirst, hoffset⟩ := h.placed last mem_concat_self
  have hbefore := hincreasing.before earlier hearlier
  refine ⟨init.length, last, getElem?_concat_length, ?_, ?_, ?_, ?_⟩
  · rw [hfirst]
    exact le_of_lt hbefore.1
  · rw [hoffset]
    exact le_of_lt hbefore.2.2
  · exact fun hzero => absurd hzero (ne_of_gt hrange)
  · intro later hlater
    rw [getElem?_eq_none (by simp)] at hlater
    cases hlater

/-- A new entry: the latest one ends where it begins. -/
theorem Indexed.add (hincreasing : Increasing (blocks ++ [block])) (hrows : 0 < block.rowCount) :
    Indexed settings (blocks ++ [block])
      (closeLast (init ++ [last]) block.firstRowNum ++ [block.entry]) := by
  rw [closeLast_concat]
  generalize hclosed : { last with rowCount := block.firstRowNum - last.firstRowNum } = closed
  have hend : closed.firstRowNum + closed.rowCount = block.firstRowNum := by
    rw [← hclosed]
    change last.firstRowNum + (block.firstRowNum - last.firstRowNum) = block.firstRowNum
    omega
  have hfirst : closed.firstRowNum = last.firstRowNum := by rw [← hclosed]
  have hoffset : closed.fileOffset = last.fileOffset := by rw [← hclosed]
  obtain ⟨own, hown, hownFirst, hownOffset⟩ := h.placed last mem_concat_self
  have hownBefore := hincreasing.before own hown
  have hpositive : 0 < closed.rowCount := by
    have := hownBefore.1
    omega
  obtain ⟨hinitOrder, -, hinitLast⟩ := pairwise_append.mp h.order
  obtain ⟨hinitJoined, -, hinitNext⟩ := isChain_append.mp h.joined
  rw [append_assoc, singleton_append]
  refine ⟨?_, ?_, ?_, ?_, ?_, ?_⟩
  · rw [h.begins_concat, ← h.begins_eq]
    cases init with
    | nil => exact congrArg some hfirst
    | cons head tail => rfl
  · intro entry hentry
    rw [mem_append, mem_cons, mem_singleton] at hentry
    rcases hentry with hinit | rfl | rfl
    · obtain ⟨earlier, hearlier, hplace⟩ := h.placed entry (mem_append_left _ hinit)
      exact ⟨earlier, mem_append_left _ hearlier, hplace⟩
    · exact ⟨own, mem_append_left _ hown, hfirst.trans hownFirst, hoffset.trans hownOffset⟩
    · exact ⟨block, mem_concat_self, rfl, rfl⟩
  · intro entry hentry
    rw [mem_append, mem_cons, mem_singleton] at hentry
    rcases hentry with hinit | rfl | rfl
    · exact h.positive entry (mem_append_left _ hinit)
    · exact hpositive
    · exact hrows
  · rw [pairwise_append]
    refine ⟨hinitOrder, pairwise_pair.mpr (le_of_eq hend), ?_⟩
    intro entry hentry later hlater
    have hle := hinitLast entry hentry last (mem_singleton_self last)
    rw [mem_cons, mem_singleton] at hlater
    rcases hlater with rfl | rfl
    · rw [hfirst]
      exact hle
    · change _ ≤ block.firstRowNum
      omega
  · rw [isChain_append]
    refine ⟨hinitJoined, isChain_pair.mpr hend, ?_⟩
    intro entry hentry next hnext
    rw [head?_cons, mem_some_iff] at hnext
    rw [← hnext, hfirst]
    exact hinitNext entry hentry last rfl
  · intro other hother hcount
    rcases mem_append.mp hother with hold | hnew
    · exact covers_close hfirst hoffset hend (h.covers other hold hcount)
        (hincreasing.before other hold)
    · rw [mem_singleton.mp hnew]
      refine ⟨init.length + 1, block.entry, ?_, le_refl _, le_refl _, fun _ => ⟨rfl, le_refl _⟩, ?_⟩
      · rw [getElem?_append_right (Nat.le_add_right _ 1), Nat.add_sub_cancel_left]
        rfl
      · intro later hlater
        rw [getElem?_eq_none] at hlater
        · cases hlater
        · rw [length_append, length_cons, length_singleton]

end

theorem indexed_addBlock (h : Indexed settings blocks entries)
    (hincreasing : Increasing (blocks ++ [block])) :
    Indexed settings (blocks ++ [block]) (addBlock settings entries block) := by
  rw [addBlock]
  by_cases hzero : block.rowCount = 0
  · rw [if_pos hzero]
    exact h.keep (begins_append_of_zero hzero) fun hpositive => absurd hzero (ne_of_gt hpositive)
  · have hrows : 0 < block.rowCount :=
      lt_of_le_of_ne (hincreasing.rows block mem_concat_self) (Ne.symm hzero)
    rw [if_neg hzero]
    rcases entries.eq_nil_or_concat' with rfl | ⟨init, last, rfl⟩
    · exact h.first hrows
    · rw [getLast?_concat]
      dsimp only
      split
      · rename_i hnear
        exact h.skip hincreasing hnear.1
      · exact h.add hincreasing hrows

/-- Whatever the blocks, their entries are a directory of them. -/
theorem indexed_entriesOf (hincreasing : Increasing blocks) :
    Indexed settings blocks (entriesOf settings blocks) := by
  induction blocks using List.reverseRecOn with
  | nil =>
    refine ⟨rfl, ?_, ?_, List.Pairwise.nil, List.IsChain.nil, ?_⟩ <;>
      exact fun _ hmem => absurd hmem not_mem_nil
  | append_singleton blocks block ih =>
    rw [entriesOf, foldl_append]
    apply indexed_addBlock (ih ?_) hincreasing
    exact ⟨(pairwise_append.mp hincreasing.order).1,
      fun earlier hearlier => hincreasing.rows earlier (mem_append_left _ hearlier)⟩

end

section

variable {i j : Nat} {entry later head : MinipageEntry} {before after : List MinipageEntry}

/-- The row is in the block. -/
def Block.Contains (block : Block) (rowNum : Int) : Prop :=
  block.firstRowNum ≤ rowNum ∧ rowNum < block.firstRowNum + block.rowCount

/-- The row is in the range of the entry. -/
def MinipageEntry.Contains (entry : MinipageEntry) (rowNum : Int) : Prop :=
  entry.firstRowNum ≤ rowNum ∧ rowNum < entry.firstRowNum + entry.rowCount

variable {settings : Settings} {blocks : List Block} {entries page : List MinipageEntry}
  {block : Block} {rowNum : Int}

theorem entryAt_eq (hentry : page[i]? = some entry) : entryAt page i = entry := by
  rw [entryAt, getD_eq_getElem?_getD, hentry, getD_some]

theorem exists_getElem? (hi : i < page.length) : ∃ entry, page[i]? = some entry :=
  ⟨page[i], getElem?_eq_getElem hi⟩

/-- The range of the entry ends at or before the later one. -/
abbrev MinipageEntry.EndsBy (entry later : MinipageEntry) : Prop :=
  entry.firstRowNum + entry.rowCount ≤ later.firstRowNum

theorem order_getElem? (horder : page.Pairwise MinipageEntry.EndsBy)
    (hi : page[i]? = some entry) (hj : page[j]? = some later) (hlt : i < j) :
    entry.firstRowNum + entry.rowCount ≤ later.firstRowNum := by
  obtain ⟨hilength, rfl⟩ := List.getElem?_eq_some_iff.mp hi
  obtain ⟨hjlength, rfl⟩ := List.getElem?_eq_some_iff.mp hj
  exact pairwise_iff_getElem.mp horder i j hilength hjlength hlt

theorem isChain_getElem? (hjoined : page.IsChain fun entry next =>
      entry.firstRowNum + entry.rowCount = next.firstRowNum) {next : MinipageEntry}
    (hi : page[i]? = some entry) (hnext : page[i + 1]? = some next) :
    entry.firstRowNum + entry.rowCount = next.firstRowNum := by
  obtain ⟨hlength, rfl⟩ := List.getElem?_eq_some_iff.mp hnext
  obtain ⟨-, rfl⟩ := List.getElem?_eq_some_iff.mp hi
  exact isChain_iff_getElem.mp hjoined i hlength

theorem probeRow_eq_iff (i : Nat) :
    probeRow page rowNum i = .eq ↔ (entryAt page i).Contains rowNum := by
  unfold probeRow MinipageEntry.Contains
  dsimp only
  split
  · rename_i hin
    exact iff_of_true rfl hin
  · rename_i hout
    refine iff_of_false ?_ hout
    split <;> decide

theorem probeRow_lt_iff (hpositive : 0 < (entryAt page i).rowCount) : probeRow page rowNum i = .lt ↔
      (entryAt page i).firstRowNum + (entryAt page i).rowCount ≤ rowNum := by
  unfold probeRow
  dsimp only
  split_ifs <;> simp <;> omega

theorem probeRow_gt_iff (i : Nat) :
    probeRow page rowNum i = .gt ↔ rowNum < (entryAt page i).firstRowNum := by
  unfold probeRow
  dsimp only
  split_ifs <;> simp <;> omega

section

variable (hpositive : ∀ entry ∈ page, 0 < entry.rowCount)
  (horder : page.Pairwise MinipageEntry.EndsBy)

include hpositive horder

theorem probeRow_ordered : Ordered (probeRow page rowNum) page.length := by
  have hpos : ∀ {i}, i < page.length → 0 < (entryAt page i).rowCount := by
    intro i hi
    obtain ⟨entry, hentry⟩ := exists_getElem? hi
    exact entryAt_eq hentry ▸ hpositive entry (mem_of_getElem? hentry)
  have hle : ∀ {i j}, i < j → j < page.length → (entryAt page i).EndsBy (entryAt page j) := by
    intro i j hlt hj
    obtain ⟨later, hlater⟩ := exists_getElem? hj
    obtain ⟨entry, hentry⟩ := exists_getElem? (hlt.trans hj)
    exact entryAt_eq hentry ▸ entryAt_eq hlater ▸ order_getElem? horder hentry hlater hlt
  constructor
  · intro i j hlt hj hprobe
    rw [probeRow_lt_iff (hpos hj)] at hprobe
    rw [probeRow_lt_iff (hpos (hlt.trans hj))]
    have := hle hlt hj
    have := hpos hj
    omega
  · intro i j hlt hj hprobe
    rw [probeRow_gt_iff] at hprobe ⊢
    have := hle hlt hj
    have := hpos (hlt.trans hj)
    omega

/-- What `find_minipage_entry` finds. -/
theorem findMinipageEntry_correct :
    match findMinipageEntry page rowNum with
    | some k => ∃ entry, page[k]? = some entry ∧ entry.Contains rowNum
    | none => ∀ entry ∈ page, ¬ entry.Contains rowNum := by
  have hordered : Ordered (probeRow page rowNum) page.length := probeRow_ordered hpositive horder
  have hcorrect := search_all hordered
  unfold findMinipageEntry
  cases hsearch : search (probeRow page rowNum) page.length 0 page.length with
  | hit k =>
    rw [hsearch] at hcorrect
    obtain ⟨entry, hentry⟩ := exists_getElem? hcorrect.1
    refine ⟨entry, hentry, ?_⟩
    rw [← entryAt_eq hentry]
    exact (probeRow_eq_iff k).mp hcorrect.2
  | miss start =>
    rw [hsearch] at hcorrect
    intro entry hmem hcontains
    obtain ⟨i, hi, rfl⟩ := getElem_of_mem hmem
    have hprobe : probeRow page rowNum i = .eq := by
      rw [probeRow_eq_iff, entryAt_eq (getElem?_eq_getElem hi)]
      exact hcontains
    rcases lt_or_ge i start with hlt | hge
    · rw [hcorrect.2.before i hlt] at hprobe
      cases hprobe
    · rw [hcorrect.2.behind i hge hi] at hprobe
      cases hprobe

end

theorem Indexed.firstRowNum_le (h : Indexed settings blocks entries)
    (hi : entries[i]? = some entry) (hj : entries[j]? = some later) (hle : i ≤ j) :
    entry.firstRowNum ≤ later.firstRowNum := by
  rcases eq_or_lt_of_le hle with rfl | hlt
  · rw [some.inj (hi.symm.trans hj)]
  · have horder := order_getElem? h.order hi hj hlt
    have hpositive := h.positive entry (mem_of_getElem? hi)
    omega

/-- The entry whose range has the row is the one that the block lies under. -/
theorem Indexed.covers_of_contains (h : Indexed settings blocks entries)
    (hblock : block ∈ blocks) (hin : block.Contains rowNum)
    (hentry : entries[j]? = some entry) (hcontains : entry.Contains rowNum) :
    Covers settings entry entries[j + 1]? block := by
  have hrows : 0 < block.rowCount := by
    have := hin.1.trans_lt hin.2
    omega
  obtain ⟨i, own, hown, hcovers⟩ := h.covers block hblock hrows
  have hfirst := hcovers.first.trans hin.1
  rcases lt_trichotomy i j with hlt | rfl | hgt
  · have hlength := (List.getElem?_eq_some_iff.mp hentry).1
    obtain ⟨next, hnext⟩ := exists_getElem? (show i + 1 < entries.length by omega)
    have hafter := (hcovers.next next hnext).1
    have hle := h.firstRowNum_le hnext hentry hlt
    have := hcontains.1
    have := hin.2
    omega
  · rw [some.inj (hentry.symm.trans hown)]
    exact hcovers
  · have := order_getElem? h.order hentry hown hgt
    have := hcontains.2
    omega

/-- Between the first and the last entry of a page there are no gaps. -/
theorem exists_contains (hjoined : page.IsChain fun entry next =>
      entry.firstRowNum + entry.rowCount = next.firstRowNum) {last : MinipageEntry}
    (hhead : page.head? = some head) (hlast : page.getLast? = some last)
    (hlow : head.firstRowNum ≤ rowNum) (hhigh : rowNum < last.firstRowNum + last.rowCount) :
    ∃ entry ∈ page, entry.Contains rowNum := by
  induction page generalizing head with
  | nil => cases hhead
  | cons entry rest ih =>
    obtain rfl : entry = head := some.inj hhead
    by_cases hin : rowNum < entry.firstRowNum + entry.rowCount
    · exact ⟨entry, mem_cons_self, hlow, hin⟩
    · cases rest with
      | nil =>
        obtain rfl : entry = last := some.inj hlast
        exact absurd hhigh hin
      | cons next rest =>
        rw [isChain_cons_cons] at hjoined
        obtain ⟨found, hfound, hcontains⟩ := ih hjoined.2 rfl hlast (by omega)
        exact ⟨found, mem_cons_of_mem entry hfound, hcontains⟩

theorem getElem?_middle (hentries : entries = before ++ (page ++ after)) {k : Nat}
    (hk : k < page.length) : entries[before.length + k]? = page[k]? := by
  rw [hentries, getElem?_append_right (Nat.le_add_right _ k), Nat.add_sub_cancel_left,
    getElem?_append_left hk]

/-- A page that begins at or before the row, when the next page begins behind it,
has the entry that the row's block lies under; the row is behind the range of
this entry only if it is the last one. -/
theorem Indexed.exists_in_page (h : Indexed settings blocks entries)
    (hblock : block ∈ blocks) (hin : block.Contains rowNum)
    (hentries : entries = before ++ (page ++ after)) (hhead : page.head? = some head)
    (hlow : head.firstRowNum ≤ rowNum) (hafter : ∀ next ∈ after.head?, rowNum < next.firstRowNum) :
    ∃ k entry, page[k]? = some entry ∧ Covers settings entry entries[before.length + k + 1]? block ∧
      (entry.Contains rowNum ∨ settings.entryMinRange ≠ 0 ∧ k + 1 = page.length) := by
  have hrows : 0 < block.rowCount := by
    have := hin.1.trans_lt hin.2
    omega
  obtain ⟨i, entry, hentry, hcovers⟩ := h.covers block hblock hrows
  have hfirst := hcovers.first.trans hin.1
  have hpage : 0 < page.length := by
    cases page with
    | nil => cases hhead
    | cons _ _ => exact Nat.succ_pos _
  have hheadAt : entries[before.length]? = some head := by
    rw [← hhead, head?_eq_getElem?, ← getElem?_middle hentries hpage, Nat.add_zero]
  have hlower : before.length ≤ i := by
    by_contra hlt
    have hlength := (List.getElem?_eq_some_iff.mp hheadAt).1
    obtain ⟨next, hnext⟩ := exists_getElem? (show i + 1 < entries.length by omega)
    have hbehind := (hcovers.next next hnext).1
    have hle := h.firstRowNum_le hnext hheadAt (by omega)
    have := hin.2
    omega
  have hupper : i < before.length + page.length := by
    by_contra hge
    have hlength := (List.getElem?_eq_some_iff.mp hentry).1
    have hshift : entries[before.length + page.length]? = after.head? := by
      rw [hentries, ← append_assoc, ← length_append,
        getElem?_append_right (Nat.le_refl _), Nat.sub_self, head?_eq_getElem?]
    obtain ⟨next, hnext⟩ :=
      exists_getElem? (show before.length + page.length < entries.length by omega)
    have hbehind := hafter next (hshift ▸ hnext)
    have hle := h.firstRowNum_le hnext hentry (le_of_not_gt hge)
    omega
  obtain ⟨k, rfl⟩ := Nat.exists_eq_add_of_le hlower
  have hk : k < page.length := by omega
  rw [getElem?_middle hentries hk] at hentry
  refine ⟨k, entry, hentry, hcovers, ?_⟩
  by_cases hcontains : rowNum < entry.firstRowNum + entry.rowCount
  · exact .inl ⟨hfirst, hcontains⟩
  · right
    constructor
    · intro hzero
      have := (hcovers.exact hzero).2
      have := hin.2
      omega
    · by_contra hne
      obtain ⟨next, hnext⟩ := exists_getElem? (show k + 1 < page.length by omega)
      have hnextAt : entries[before.length + k + 1]? = some next := by
        rw [Nat.add_assoc, getElem?_middle hentries (by omega), hnext]
      have hentryAt : entries[before.length + k]? = some entry := by
        rw [getElem?_middle hentries hk, hentry]
      have hbehind := (hcovers.next next hnextAt).1
      have hjoin := isChain_getElem? h.joined hentryAt hnextAt
      have := hin.2
      omega

end

end Greenplum.BlockDirectory
