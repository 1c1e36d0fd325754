import Mathlib.Algebra.BigOperators.Ring.Finset
import FdeEmugl.Library.Runs
import FdeEmugl.Snapshot.SavedPages

/-!
# Chains of saves of one file

A file is written by a full save and then by any number of incremental ones, each with the index of the
file as it stands. Between the saves the memory changes; the batches of a save are written in any order.
An eager load of the file gives the memory of the last save. The file keeps no byte that belongs to
nobody, unless a page becomes zero or a gap gets too large.
-/

namespace FdeEmugl.SaveChain

open Coverage Cyclic Files Runs Snapshot

/-! ## Loading -/

section Load

variable {exact : Prop} {codec : Codec} {layout : Layout} {seen : Set Contents} {saver : Saver} {file : File}
  {loader : Loader}

/-- Pages are stored one after the other, each at its own place. -/
theorem foldlM_update {Item : Type*} (place : Item → PageId) (read : Item → Option Contents)
    {items : List Item} (hread : ∀ item ∈ items, (read item).isSome) (memory : Memory) :
    ∃ loaded, items.foldlM (fun memory item ↦ (read item).map fun contents ↦
        Function.update memory (place item) contents) memory = some loaded ∧
      ∀ id contents, (∀ item ∈ items, place item = id → read item = some contents) →
        (memory id = contents ∨ ∃ item ∈ items, place item = id) → loaded id = contents := by
  induction items generalizing memory with
  | nil =>
    refine ⟨memory, rfl, fun id contents _ hthere ↦ ?_⟩
    obtain hthere | ⟨_, hitem, _⟩ := hthere
    · exact hthere
    · cases hitem
  | cons item items ih =>
    obtain ⟨hfirst, hrest⟩ := List.forall_mem_cons.mp hread
    obtain ⟨contents, hcontents⟩ := Option.isSome_iff_exists.mp hfirst
    obtain ⟨loaded, hloaded, hspec⟩ := ih hrest (Function.update memory (place item) contents)
    refine ⟨loaded, ?_, fun id expected hsame hthere ↦ ?_⟩
    · rw [List.foldlM_cons, hcontents]
      exact hloaded
    · obtain ⟨hnow, hlater⟩ := List.forall_mem_cons.mp hsame
      refine hspec id expected hlater ?_
      by_cases hplace : place item = id
      · rw [hcontents] at hnow
        rw [hplace, Function.update_self]
        exact Or.inl (Option.some.inj (hnow hplace))
      · rw [Function.update_of_ne (Ne.symm hplace)]
        refine hthere.imp_right fun ⟨other, hother, heq⟩ ↦ ?_
        obtain rfl | hother := List.mem_cons.mp hother
        · exact absurd heq hplace
        · exact ⟨other, hother, heq⟩

theorem zeroOutPages_spec (loader : Loader) (mIsQuickboot : Bool) (memory : Memory) {id : PageId}
    {contents : Contents}
    (hsame : ∀ page ∈ loader.pages.zipIdx, page.1.sizeOnDisk = 0 → loader.pagePtr page.1 page.2 = id →
      contents = .zero)
    (hthere : memory id = contents ∨ mIsQuickboot = false ∧
      ∃ page ∈ loader.pages.zipIdx, page.1.sizeOnDisk = 0 ∧ loader.pagePtr page.1 page.2 = id) :
    loader.zeroOutPages mIsQuickboot memory id = contents := by
  unfold Loader.zeroOutPages
  replace hsame : ∀ page ∈ loader.pages.zipIdx.filter (fun page ↦ page.1.sizeOnDisk = 0),
      loader.pagePtr page.1 page.2 = id → contents = .zero := by
    intro page hpage
    obtain ⟨hmem, hsize⟩ := List.mem_filter.mp hpage
    exact hsame page hmem (of_decide_eq_true hsize)
  replace hthere : memory id = contents ∨ mIsQuickboot = false ∧
      ∃ page ∈ loader.pages.zipIdx.filter (fun page ↦ page.1.sizeOnDisk = 0), loader.pagePtr page.1 page.2 = id := by
    refine hthere.imp_right fun ⟨hquick, page, hpage, hsize, hplace⟩ ↦ ⟨hquick, page, ?_, hplace⟩
    exact List.mem_filter.mpr ⟨hpage, decide_eq_true hsize⟩
  generalize loader.pages.zipIdx.filter (fun page ↦ page.1.sizeOnDisk = 0) = pages at hsame hthere
  induction pages generalizing memory with
  | nil =>
    obtain hthere | ⟨_, _, hpage, _⟩ := hthere
    · exact hthere
    · cases hpage
  | cons page pages ih =>
    obtain ⟨hfirst, hrest⟩ := List.forall_mem_cons.mp hsame
    rw [List.foldl_cons]
    refine ih _ hrest ?_
    cases mIsQuickboot with
    | true => exact hthere.imp_right fun ⟨hquick, _⟩ ↦ absurd hquick (by decide)
    | false =>
      by_cases hplace : loader.pagePtr page.1 page.2 = id
      · rw [if_neg (by decide), hplace, Function.update_self]
        exact Or.inl (hfirst hplace).symm
      · rw [if_neg (by decide), Function.update_of_ne (Ne.symm hplace)]
        refine hthere.imp_right fun ⟨hquick, other, hother, heq⟩ ↦ ⟨hquick, ?_⟩
        obtain rfl | hother := List.mem_cons.mp hother
        · exact absurd heq hplace
        · exact ⟨other, hother, heq⟩

/-- What is stored can be read back. -/
theorem readDataFromDisk_eq (hcodec : codec.Faithful seen) {contents : Contents} (hcontents : contents ∈ seen)
    {page : LoaderPage} {compressed : Bool} (hcompressed : loader.compressed = compressed)
    (hversion : loader.mVersion = 2) (hstate : page.state = .Empty)
    (hsize : page.sizeOnDisk = (encode codec compressed contents).length)
    (hbytes : segment file.bytes page.filePos page.sizeOnDisk = encode codec compressed contents)
    (hend : page.filePos + page.sizeOnDisk ≤ file.size) :
    loader.readDataFromDisk codec file page = some contents := by
  have hbuf : file.pread page.sizeOnDisk page.filePos = encode codec compressed contents := by
    rw [File.pread_eq hend, hbytes]
  have hstays : ¬(page.state ≠ .Empty ∨
      (encode codec compressed contents).length ≠ page.sizeOnDisk) := by simp [hstate, hsize]
  unfold Loader.readDataFromDisk
  rw [hbuf, if_neg hstays, hcompressed, hversion, hsize]
  by_cases hsmaller : compressed = true ∧ (codec.compress contents).length < kDefaultPageSize
  · have hencode : encode codec compressed contents = codec.compress contents := if_pos hsmaller
    rw [hencode, if_pos ⟨hsmaller.1, Or.inr hsmaller.2⟩]
    exact hcodec.decompress_compress contents hcontents
  · have hencode : encode codec compressed contents = contents.1 := if_neg hsmaller
    rw [if_neg (by rw [hencode, contents.2]; simp), dif_pos (by rw [hencode]; exact contents.2)]
    exact congrArg some (Subtype.ext hencode)

/-- The page of the index that stands for a page of the machine. -/
theorem exists_pagePtr_eq (hmirrors : loader.Mirrors layout false saver) {id : PageId} (hid : id ∈ layout.owners) :
    ∃ own page, loader.blocks[id.1]? = some own ∧ loader.pages[own.pagesBegin + id.2]? = some page ∧
      loader.pagePtr page (own.pagesBegin + id.2) = id ∧ page.entry = (saver.pages id).toPage.entry ∧
      page.Fresh false id.1 := by
  obtain ⟨own, page, hown, _, hpage, hentry, hfresh⟩ := hmirrors.pages id hid
  have hindex : page.blockIndex = id.1 := by
    obtain ⟨block, hblock, _⟩ := Layout.mem_owners.mp hid
    have hlt := (List.getElem?_eq_some_iff.mp hblock).1
    have hle := layout.length_le
    rw [hfresh.1, Nat.mod_eq_of_lt (by omega)]
  refine ⟨own, page, hown, hpage, ?_, hentry, hfresh⟩
  rw [Loader.pagePtr, hindex, hown]
  exact Prod.ext rfl (Nat.add_sub_cancel_left _ _)

section

variable (h : saver.Sound exact codec layout) (hfile : saver.writeIndex layout = some file)
  (hcodec : codec.Faithful seen) (hseen : ∀ id ∈ layout.owners, saver.memory id ∈ seen)
include h hfile hcodec hseen

/-- Every page of the index is that of a page of the machine, and holds its contents. -/
theorem page_spec (hmirrors : loader.Mirrors layout false saver) {page : LoaderPage} {position : ℕ}
    (hpage : loader.pages[position]? = some page) :
    loader.pagePtr page position ∈ layout.owners ∧
      (page.sizeOnDisk = 0 → saver.memory (loader.pagePtr page position) = .zero) ∧
      (page.sizeOnDisk ≠ 0 → loader.readDataFromDisk codec file page =
        some (saver.memory (loader.pagePtr page position))) := by
  obtain ⟨id, hid, own, hown, hposition⟩ := hmirrors.bounded position page hpage
  obtain ⟨own', page', hown', hpage', hplace, hentry, hfresh⟩ := exists_pagePtr_eq hmirrors hid
  cases hown.symm.trans hown'
  subst hposition
  cases hpage'.symm.trans hpage
  rw [hplace, (h.entry_toPage hfile hid).1] at *
  have hstored := h.stored_file hfile hid
  simp only [LoaderPage.entry] at hentry
  refine ⟨hid, fun hzero ↦ ?_, fun hne ↦ ?_⟩
  · split_ifs at hentry with hsize
    · exact hstored.zero_iff.mp hsize
    · exact absurd ((Prod.mk.inj hentry).1.symm.trans hzero) hsize
  · split_ifs at hentry with hsize
    · exact absurd (Prod.mk.inj hentry).1 hne
    · obtain ⟨hequal, hrest⟩ := Prod.mk.inj hentry
      have hpos := (Prod.mk.inj hrest).1
      have hbytes := hstored.bytes_eq hsize
      obtain ⟨hwaiting, _, _⟩ := Saver.writeIndex_eq_some hfile
      have hrange : saver.own id = ⟨(saver.pages id).filePos, (saver.pages id).sizeOnDisk⟩ :=
        if_neg (by simp [hwaiting])
      have hend := (h.ledger.divides.own_between hid (by rw [hrange]; simp only; omega)).2
      rw [hrange] at hend
      have hlimit := (Saver.pread_writeIndex hfile h.ledger.le_last).2.1
      refine readDataFromDisk_eq hcodec (hseen id hid) hmirrors.compressed_eq hmirrors.version_eq
        (hfresh.2 rfl hne) ?_ ?_ ?_
      · rw [hequal, ← hbytes, length_segment]
      · rw [hequal, hpos, hbytes]
      · simp only at hend
        omega

/-- A file that was written is loaded. -/
theorem loadRam_eq (hasRamFile : List UInt8 → Bool) {mIsQuickboot : Bool} {memory : Memory}
    (hfresh : mIsQuickboot = true → ∀ id ∈ layout.owners, memory id = .zero) :
    ∃ loaded, loadRam codec hasRamFile layout mIsQuickboot file memory = some loaded ∧
      ∀ id ∈ layout.owners, loaded id = saver.memory id := by
  obtain ⟨loader, hloader, hmirrors⟩ := h.ofFile hfile hasRamFile false
  have hspec (page : LoaderPage × ℕ) (hpage : page ∈ loader.pages.zipIdx) :=
    page_spec h hfile hcodec hseen hmirrors (List.mem_zipIdx_iff_getElem?.mp hpage)
  have hthere : ∀ id ∈ layout.owners, ∃ page ∈ loader.pages.zipIdx, loader.pagePtr page.1 page.2 = id := by
    intro id hid
    obtain ⟨own, page, _, hpage, hplace, _⟩ := exists_pagePtr_eq hmirrors hid
    exact ⟨(page, own.pagesBegin + id.2), List.mem_zipIdx_iff_getElem?.mpr hpage, hplace⟩
  set sortedPages := (loader.pages.zipIdx.filter fun page ↦ page.1.sizeOnDisk ≠ 0).mergeSort
    (fun l r ↦ l.1.filePos ≤ r.1.filePos) with hsorted
  have hmem {page : LoaderPage × ℕ} : page ∈ sortedPages ↔ page ∈ loader.pages.zipIdx ∧ page.1.sizeOnDisk ≠ 0 := by
    rw [hsorted, List.mem_mergeSort, List.mem_filter, decide_eq_true_eq]
  have hread : ∀ page ∈ sortedPages, (loader.readDataFromDisk codec file page.1).isSome := by
    intro page hpage
    obtain ⟨hpage, hne⟩ := hmem.mp hpage
    rw [(hspec page hpage).2.2 hne]
    rfl
  obtain ⟨loaded, hloaded, hcontents⟩ := foldlM_update (fun page : LoaderPage × ℕ ↦ loader.pagePtr page.1 page.2)
    (fun page ↦ loader.readDataFromDisk codec file page.1) hread (loader.zeroOutPages mIsQuickboot memory)
  refine ⟨loaded, ?_, fun id hid ↦ hcontents id _ (fun page hpage hplace ↦ ?_) ?_⟩
  · rw [loadRam, hloader, Option.bind_some]
    exact hloaded
  · obtain ⟨hpage, hne⟩ := hmem.mp hpage
    rw [(hspec page hpage).2.2 hne, hplace]
  · obtain ⟨page, hpage, hplace⟩ := hthere id hid
    by_cases hsize : page.1.sizeOnDisk = 0
    · have hzero := (hspec page hpage).2.1 hsize
      rw [hplace] at hzero
      left
      refine zeroOutPages_spec loader mIsQuickboot memory (fun _ _ _ _ ↦ hzero) ?_
      cases mIsQuickboot with
      | true => exact Or.inl ((hfresh rfl id hid).trans hzero.symm)
      | false => exact Or.inr ⟨rfl, page, hpage, hsize, hplace⟩
    · exact Or.inr ⟨page, hmem.mpr ⟨hpage, hsize⟩, hplace⟩

end

end Load

/-! ## The chain -/

/-- A save is begun, one of its batches is written, or it is finished. -/
inductive Label where
  | full (compressed : Bool) (memory : Memory)
  | incremental (mIndexOnly : Bool) (unloaded : PageId → Bool) (memory : Memory)
  | writePage (batch : List PageId)
  | finish

/-- The memory that a save begins with. -/
def Label.memory : Label → Option Memory
  | .full _ memory => some memory
  | .incremental _ _ memory => some memory
  | _ => none

inductive Stage where
  | noFile
  | saving (saver : Saver)
  | saved (file : File) (memory : Memory)

/-- What is being saved or has been saved. -/
def Stage.memory : Stage → Option Memory
  | .noFile => none
  | .saving saver => some saver.memory
  | .saved _ memory => some memory

/-- The file, once it is complete. -/
def Stage.file : Stage → Option File
  | .saved file _ => some file
  | _ => none

theorem Stage.exists_of_isSome {stage : Option Stage} (h : (stage.bind Stage.file).isSome) :
    ∃ file memory, stage = some (.saved file memory) := by
  obtain ⟨file, hfile⟩ := Option.isSome_iff_exists.mp h
  obtain ⟨reached, rfl, hsaved⟩ := Option.bind_eq_some_iff.mp hfile
  cases reached with
  | noFile => cases hsaved
  | saving saver => cases hsaved
  | saved file memory => exact ⟨file, memory, rfl⟩

section Steps

variable (codec : Codec) (hasRamFile : List UInt8 → Bool) (layout : Layout)

/-- Pages that have not been loaded cannot have changed. A worker may hand over any batch of changed pages
next. -/
def step : Label → Stage → Option Stage
  | .full compressed memory, .noFile => some (.saving (.full codec layout compressed memory))
  | .incremental mIndexOnly unloaded memory, .saved file last =>
    if ∀ id ∈ layout.ids, unloaded id = true → memory id = last id then
      (Saver.incremental codec hasRamFile layout mIndexOnly unloaded memory file).map Stage.saving
    else none
  | .writePage batch, .saving saver =>
    if batch ≠ [] ∧ batch.Nodup ∧ batch.length ≤ kCompressBufferBatchSize ∧ ∀ id ∈ batch, id ∈ saver.waiting then
      some (.saving (saver.writePage codec batch))
    else none
  | .finish, .saving saver => (saver.writeIndex layout).map fun file ↦ .saved file saver.memory
  | _, _ => none

/-- The condition under which a step loses no byte of the file: no page becomes zero, and no gap that is
joined has 2^31 bytes or more. -/
def KeepsSpace : Label → Stage → Prop
  | .incremental _ _ memory, .saved _ last => ∀ id ∈ layout.ids, memory id = .zero → last id = .zero
  | .writePage batch, .saving saver => saver.BatchFits codec batch
  | _, _ => True

instance (label : Label) (stage : Stage) : Decidable (KeepsSpace codec layout label stage) :=
  match label, stage with
  | .incremental _ _ _, .saved _ _ => inferInstanceAs (Decidable (∀ _ ∈ _, _ → _))
  | .writePage _, .saving _ => inferInstanceAs (Decidable (Saver.BatchFits _ _ _))
  | .full _ _, _ | .incremental _ _ _, .noFile | .incremental _ _ _, .saving _ | .writePage _, .noFile
  | .writePage _, .saved _ _ | .finish, _ => isTrue trivial

variable {codec hasRamFile layout} {exact : Prop} {seen : Set Contents}

/-- The invariant. A saved file is what a finished saver has written. -/
def Stage.Sound (exact : Prop) (codec : Codec) (layout : Layout) (seen : Set Contents) : Stage → Prop
  | .noFile => True
  | .saving saver => saver.Sound exact codec layout ∧ ∀ id ∈ layout.owners, saver.memory id ∈ seen
  | .saved file memory => ∃ saver : Saver, saver.Sound exact codec layout ∧ saver.memory = memory ∧
      (∀ id ∈ layout.owners, memory id ∈ seen) ∧ saver.writeIndex layout = some file

variable {stage : Stage}

theorem sound_step (hcodec : codec.Faithful seen) {label : Label} {next : Stage}
    (h : stage.Sound exact codec layout seen)
    (hseen : ∀ memory ∈ label.memory, ∀ id ∈ layout.owners, memory id ∈ seen)
    (hkeeps : exact → KeepsSpace codec layout label stage)
    (hnext : step codec hasRamFile layout label stage = some next) : next.Sound exact codec layout seen := by
  cases label with
  | full compressed memory =>
    cases stage with
    | noFile =>
      cases hnext
      exact ⟨Saver.sound_full exact codec layout compressed memory, hseen memory rfl⟩
    | saving saver => cases hnext
    | saved file last => cases hnext
  | incremental mIndexOnly unloaded memory =>
    cases stage with
    | noFile => cases hnext
    | saving saver => cases hnext
    | saved file last =>
      obtain ⟨hunloaded, hsome⟩ := Option.ite_none_right_eq_some.mp hnext
      obtain ⟨before, hbefore, rfl, hlast, hfile⟩ := h
      have hmem {id : PageId} (hid : id ∈ layout.owners) : id ∈ layout.ids := List.mem_toFinset.mp hid
      obtain ⟨saver, hsaver, hmemory, _, hsound⟩ := hbefore.incremental hfile hcodec hlast (hseen memory rfl)
        (fun id hid ↦ hunloaded id (hmem hid)) (fun hexact id hid ↦ hkeeps hexact id (hmem hid))
        hasRamFile mIndexOnly
      rw [hsaver, Option.map_some] at hsome
      cases hsome
      exact ⟨hsound, hmemory ▸ hseen memory rfl⟩
  | writePage batch =>
    cases stage with
    | noFile => cases hnext
    | saved file last => cases hnext
    | saving saver =>
      obtain ⟨⟨_, hnodup, _, hbatch⟩, hsome⟩ := Option.ite_none_right_eq_some.mp hnext
      cases hsome
      exact ⟨h.1.writePage hcodec h.2 hnodup hbatch hkeeps, h.2⟩
  | finish =>
    cases stage with
    | noFile => cases hnext
    | saved file last => cases hnext
    | saving saver =>
      obtain ⟨file, hfile, rfl⟩ := Option.map_eq_some_iff.mp hnext
      exact ⟨saver, h.1, rfl, h.2, hfile⟩

theorem sound_of_run (hcodec : codec.Faithful seen) {labels : List Label}
    (hseen : ∀ label ∈ labels, ∀ memory ∈ label.memory, ∀ id ∈ layout.owners, memory id ∈ seen)
    (hkeeps : Guarded (step codec hasRamFile layout) (fun label stage ↦ exact → KeepsSpace codec layout label stage) .noFile labels)
    (hrun : run (step codec hasRamFile layout) .noFile labels = some stage) :
    stage.Sound exact codec layout seen := by
  have hinit : Stage.Sound exact codec layout seen .noFile := trivial
  exact invariant_of_guarded (Stage.Sound exact codec layout seen)
    (fun _ _ _ hsound hguard hnext ↦ sound_step hcodec hsound hguard.1 hguard.2 hnext) hinit
    (guarded_and (guarded_of_mem _ hseen) hkeeps) hrun

theorem memory_step {label : Label} {next : Stage} (hnext : step codec hasRamFile layout label stage = some next) :
    next.memory = label.memory.or stage.memory := by
  cases label with
  | full compressed memory =>
    cases stage with
    | noFile =>
      cases hnext
      rfl
    | saving saver => cases hnext
    | saved file last => cases hnext
  | incremental mIndexOnly unloaded memory =>
    cases stage with
    | noFile => cases hnext
    | saving saver => cases hnext
    | saved file last =>
      obtain ⟨_, hsome⟩ := Option.ite_none_right_eq_some.mp hnext
      obtain ⟨saver, hsaver, rfl⟩ := Option.map_eq_some_iff.mp hsome
      obtain ⟨loaded, _, hsaver⟩ := Option.bind_eq_some_iff.mp hsaver
      obtain ⟨_, hsaver⟩ := Option.ite_none_right_eq_some.mp hsaver
      obtain ⟨mGaps, _, rfl⟩ := Option.map_eq_some_iff.mp hsaver
      rfl
  | writePage batch =>
    cases stage with
    | noFile => cases hnext
    | saved file last => cases hnext
    | saving saver =>
      obtain ⟨_, hsome⟩ := Option.ite_none_right_eq_some.mp hnext
      cases hsome
      rfl
  | finish =>
    cases stage with
    | noFile => cases hnext
    | saved file last => cases hnext
    | saving saver =>
      obtain ⟨file, _, rfl⟩ := Option.map_eq_some_iff.mp hnext
      rfl

/-- The memory of the stage is that of the last save. -/
theorem memory_run {labels : List Label} {last : Stage}
    (hrun : run (step codec hasRamFile layout) stage labels = some last) :
    last.memory = (labels.filterMap Label.memory).getLast?.or stage.memory := by
  induction labels generalizing stage with
  | nil =>
    cases hrun
    rfl
  | cons label labels ih =>
    obtain ⟨next, hnext, hrest⟩ := Option.bind_eq_some_iff.mp hrun
    rw [ih hrest, memory_step hnext, List.filterMap_cons]
    cases hlabel : label.memory with
    | none => rw [Option.none_or]
    | some memory =>
      rw [List.getLast?_cons, Option.some_or, Option.some_or]
      cases (labels.filterMap Label.memory).getLast? with
      | none => rfl
      | some later => rfl

/-- An eager load gives the memory of the last save, and the next save can go on from the file. -/
theorem loadRam_of_chain (hcodec : codec.Faithful seen) {labels : List Label} {file : File} {memory : Memory}
    (hseen : ∀ label ∈ labels, ∀ memory ∈ label.memory, ∀ id ∈ layout.owners, memory id ∈ seen)
    (hrun : run (step codec hasRamFile layout) .noFile labels = some (.saved file memory)) :
    (labels.filterMap Label.memory).getLast? = some memory ∧
      (∀ mIsQuickboot before, (mIsQuickboot = true → ∀ id ∈ layout.owners, before id = .zero) →
        ∃ loaded, loadRam codec hasRamFile layout mIsQuickboot file before = some loaded ∧
          ∀ id ∈ layout.owners, loaded id = memory id) ∧
      ∀ mIndexOnly unloaded next, (∀ id ∈ layout.owners, next id ∈ seen) →
        (∀ id ∈ layout.owners, unloaded id = true → next id = memory id) →
        (step codec hasRamFile layout (.incremental mIndexOnly unloaded next) (.saved file memory)).isSome := by
  have hkeeps : Guarded (step codec hasRamFile layout)
      (fun label stage ↦ False → KeepsSpace codec layout label stage) .noFile labels :=
    guarded_of_forall (fun _ _ ↦ False.elim) _ labels
  obtain ⟨saver, hsound, rfl, hlast, hfile⟩ := sound_of_run hcodec hseen hkeeps hrun
  refine ⟨?_, fun mIsQuickboot before hbefore ↦ ?_, fun mIndexOnly unloaded next hnext hunloaded ↦ ?_⟩
  · have hmemory := memory_run hrun
    rwa [Stage.memory, Stage.memory, Option.or_none, eq_comm] at hmemory
  · exact loadRam_eq hsound hfile hcodec hlast hasRamFile hbefore
  · have hloses : False → ∀ id ∈ layout.owners, next id = .zero → saver.memory id = .zero := False.elim
    obtain ⟨again, hagain, _⟩ :=
      hsound.incremental hfile hcodec hlast hnext hunloaded hloses hasRamFile mIndexOnly
    have hids : ∀ id ∈ layout.ids, unloaded id = true → next id = saver.memory id :=
      fun id hid ↦ hunloaded id (List.mem_toFinset.mpr hid)
    rw [step, if_pos hids, hagain]
    rfl

/-- A page of which only the first byte matters. -/
def patch (first : UInt8) : Contents :=
  ⟨first :: List.replicate 4095 0, by rw [List.length_cons, List.length_replicate]; rfl⟩

def firstByte : Codec where
  compress contents := contents.1.headD 0 :: List.replicate (contents.1.headD 0).toNat 1
  decompress bytes := bytes.head?.map patch
  hash contents := ⟨contents.1.headD 0 :: List.replicate 15 1, rfl⟩

def twoPages : Layout := ⟨false, [(ramBlock, 2)], by decide, by decide, by decide, by decide, by decide⟩

def patches (first second : UInt8) : Memory := fun id ↦ patch (if id.2 = 0 then first else second)

theorem faithful_firstByte : firstByte.Faithful (Set.range patch) where
  decompress_compress := by
    rintro _ ⟨first, rfl⟩
    rfl
  compress_ne_nil := by
    rintro _ ⟨first, rfl⟩
    exact List.cons_ne_nil _ _
  hash_injOn := by
    rintro _ ⟨first, rfl⟩ _ ⟨second, rfl⟩ hhash
    exact congrArg patch (List.cons.inj (Subtype.mk.inj hhash)).1
  hash_ne_zero := by
    rintro _ ⟨first, rfl⟩ hzero
    have htail : List.replicate 15 (1 : UInt8) = List.replicate 15 0 := congrArg List.tail (Subtype.mk.inj hzero)
    exact absurd htail (by decide)

theorem patches_mem (first second : UInt8) (id : PageId) : patches first second id ∈ Set.range patch := ⟨_, rfl⟩

/-- One page becomes zero while the other one ceases to be. -/
def traded : List Label :=
  [.full true (patches 3 0), .writePage [(0, 0)], .finish, .incremental false (fun _ ↦ false) (patches 0 2),
    .writePage [(0, 1)], .finish]

theorem loadRam_of_chain_traded : ∃ file loaded,
    run (step firstByte (fun _ ↦ false) twoPages) .noFile traded = some (.saved file (patches 0 2)) ∧
      loadRam firstByte (fun _ ↦ false) twoPages false file (patches 8 8) = some loaded ∧
      ∀ id ∈ twoPages.owners, loaded id = patches 0 2 id := by
  have hsome : ((run (step firstByte (fun _ ↦ false) twoPages) .noFile traded).bind Stage.file).isSome := by
    decide +kernel
  obtain ⟨file, memory, hrun⟩ := Stage.exists_of_isSome hsome
  have hseen : ∀ label ∈ traded, ∀ memory ∈ label.memory, ∀ id ∈ twoPages.owners,
      memory id ∈ Set.range patch := by
    simp [traded, Label.memory, patches_mem, -Set.mem_range]
  obtain ⟨hlast, hload, _⟩ := loadRam_of_chain faithful_firstByte hseen hrun
  obtain rfl : patches 0 2 = memory := Option.some.inj hlast
  obtain ⟨loaded, hloaded, hsame⟩ := hload false (patches 8 8) nofun
  exact ⟨file, loaded, hrun, hloaded, hsame⟩

/-- One page shrinks and the other one grows. -/
def shrunk : List Label := [.full true (patches 9 4), .writePage [(0, 1)], .writePage [(0, 0)], .finish,
    .incremental false (fun _ ↦ false) (patches 5 7), .writePage [(0, 0), (0, 1)], .finish]

/-- Where the index says that a page is. -/
def diskRange (loader : Loader) (id : PageId) : Range :=
  (loader.findPage id).elim ⟨0, 0⟩ fun page ↦ ⟨page.filePos, page.sizeOnDisk⟩

theorem covers_diskRange {saver : Saver} {file : File} {loader : Loader} {mIndexOnly : Bool}
    (h : saver.Sound exact codec layout) (hfile : saver.writeIndex layout = some file)
    (hmirrors : loader.Mirrors layout mIndexOnly saver) {id : PageId} (hid : id ∈ layout.owners)
    (point : ℕ) : (diskRange loader id).covers point = (saver.own id).covers point := by
  obtain ⟨page, hpage, hsize, hpos, _⟩ := h.findPage hfile hmirrors hid
  obtain ⟨hwaiting, _, _⟩ := Saver.writeIndex_eq_some hfile
  have hown : saver.own id = ⟨(saver.pages id).filePos, (saver.pages id).sizeOnDisk⟩ := if_neg (by simp [hwaiting])
  rw [diskRange, hpage, Option.elim_some, hown]
  by_cases hzero : page.sizeOnDisk = 0
  · rw [Range.covers_of_size_nonpos (by simp [hzero]), Range.covers_of_size_nonpos (by simp [← hsize, hzero])]
  · rw [hpos hzero, hsize]

/-- The header and the index aside, every byte of a compressed file belongs to one page or one gap, as long
as no page becomes zero and no joined gap gets too large. -/
theorem space_of_chain (hcodec : codec.Faithful seen) {labels : List Label} {file : File} {memory : Memory}
    (hseen : ∀ label ∈ labels, ∀ memory ∈ label.memory, ∀ id ∈ layout.owners, memory id ∈ seen)
    (hkeeps : Guarded (step codec hasRamFile layout) (KeepsSpace codec layout) .noFile labels)
    (hrun : run (step codec hasRamFile layout) .noFile labels = some (.saved file memory))
    (mIndexOnly : Bool) :
    ∃ loader startPosInFile mGaps,
      Loader.ofFile hasRamFile layout mIndexOnly file = some (loader, startPosInFile) ∧
      loader.mGaps = some mGaps ∧
      (loader.compressed = true →
        (∀ point, owned layout.owners (diskRange loader) point + cover mGaps.gaps point =
          between 8 startPosInFile point) ∧
        mGaps.wastedSpace + ∑ id ∈ layout.owners, (diskRange loader id).size = (startPosInFile : ℤ) - 8) := by
  have hexact : Guarded (step codec hasRamFile layout)
      (fun label stage ↦ True → KeepsSpace codec layout label stage) .noFile labels := by
    simpa only [true_imp_iff] using hkeeps
  obtain ⟨saver, hsound, rfl, hlast, hfile⟩ := sound_of_run hcodec hseen hexact hrun
  obtain ⟨loader, hloader, hmirrors⟩ := hsound.ofFile hfile hasRamFile mIndexOnly
  refine ⟨loader, saver.mCurrentStreamPos, _, hloader, hmirrors.gaps_eq, fun hcompressed ↦ ?_⟩
  rw [hmirrors.compressed_eq] at hcompressed
  obtain ⟨_, hlimit, _⟩ := Saver.writeIndex_eq_some hfile
  have hlength : ((saver.mGaps.getD (.oneSize [] 0)).save).length < 2 ^ 63 := by
    rw [Saver.indexBytes, Snapshot.writeIndex] at hlimit
    simp only [List.length_append] at hlimit
    omega
  obtain ⟨hkept, hless, hmore⟩ := hsound.ledger.kept.load (by omega) hlength
  have hcovers (id : PageId) (hid : id ∈ layout.owners) (point : ℕ) :=
    covers_diskRange hsound hfile hmirrors hid point
  generalize GapTracker.load saver.compressed (saver.mGaps.getD (.oneSize [] 0)).save = mGaps at *
  have hdivides : Divides True layout.owners (diskRange loader) mGaps.gaps 8 saver.mCurrentStreamPos :=
    hsound.ledger.divides.of_le (fun id hid point ↦ (hcovers id hid point).le) hless fun hexact ↦
      ⟨fun id hid point ↦ (hcovers id hid point).ge, hmore hexact⟩
  refine ⟨fun point ↦ le_antisymm (hdivides point).1 ((hdivides point).2 trivial), ?_⟩
  cases mGaps with
  | oneSize mGapStarts mSize =>
    rw [hkept.1] at hcompressed
    cases hcompressed
  | generic gaps =>
    have hpositive : ∀ gap ∈ gaps, 0 < gap.size := hkept.2.2.2 trivial
    have hnonneg : ∀ id ∈ layout.owners, 0 ≤ (diskRange loader id).size := by
      intro id _
      unfold diskRange
      cases loader.findPage id with
      | none => exact le_rfl
      | some page => exact Int.natCast_nonneg _
    have hsum := hdivides.sum_size trivial hsound.ledger.le_last hnonneg hpositive
    have howned : ((∑ id ∈ layout.owners, (diskRange loader id).size.toNat : ℕ) : ℤ) =
        ∑ id ∈ layout.owners, (diskRange loader id).size := by
      rw [Nat.cast_sum]
      exact Finset.sum_congr rfl fun id hid ↦ Int.toNat_of_nonneg (hnonneg id hid)
    have hwasted : (((gaps.map fun gap ↦ gap.size.toNat).sum : ℕ) : ℤ) = (gaps.map Range.size).sum := by
      rw [Nat.cast_list_sum, List.map_map]
      exact congrArg List.sum (List.map_congr_left fun gap hgap ↦ Int.toNat_of_nonneg (hpositive gap hgap).le)
    have hlast := hsound.ledger.le_last
    rw [GapTracker.wastedSpace, GenericGapTracker.wastedSpace, ← hwasted, ← howned]
    simp only [GapTracker.gaps] at hsum
    omega

theorem space_of_chain_shrunk : ∃ file memory loader startPosInFile mGaps,
    run (step firstByte (fun _ ↦ false) twoPages) .noFile shrunk = some (.saved file memory) ∧
      Loader.ofFile (fun _ ↦ false) twoPages false file = some (loader, startPosInFile) ∧
      loader.mGaps = some mGaps ∧
      (loader.compressed = true →
        (∀ point, owned twoPages.owners (diskRange loader) point + cover mGaps.gaps point =
          between 8 startPosInFile point) ∧
        mGaps.wastedSpace + ∑ id ∈ twoPages.owners, (diskRange loader id).size =
          (startPosInFile : ℤ) - 8) := by
  have hsome : ((run (step firstByte (fun _ ↦ false) twoPages) .noFile shrunk).bind Stage.file).isSome := by
    decide +kernel
  obtain ⟨file, memory, hrun⟩ := Stage.exists_of_isSome hsome
  have hseen : ∀ label ∈ shrunk, ∀ memory ∈ label.memory, ∀ id ∈ twoPages.owners,
      memory id ∈ Set.range patch := by
    simp [shrunk, Label.memory, patches_mem, -Set.mem_range]
  have hkeeps : Guarded (step firstByte (fun _ ↦ false) twoPages) (KeepsSpace firstByte twoPages) .noFile
      shrunk := by
    decide +kernel
  obtain ⟨loader, startPosInFile, mGaps, hloader, hgaps, hspace⟩ :=
    space_of_chain faithful_firstByte hseen hkeeps hrun false
  exact ⟨file, memory, loader, startPosInFile, mGaps, hrun, hloader, hgaps, hspace⟩

/-- The first byte behind the header belonged to the page that became zero. -/
theorem becomes_zero_leaks : ∃ file memory loader startPosInFile mGaps,
    run (step firstByte (fun _ ↦ false) twoPages) .noFile traded = some (.saved file memory) ∧
      Loader.ofFile (fun _ ↦ false) twoPages false file = some (loader, startPosInFile) ∧
      loader.mGaps = some mGaps ∧ loader.compressed = true ∧
      owned twoPages.owners (diskRange loader) 8 + cover mGaps.gaps 8 = 0 ∧
      between 8 startPosInFile 8 = 1 ∧
      mGaps.wastedSpace + ∑ id ∈ twoPages.owners, (diskRange loader id).size + 4 =
        (startPosInFile : ℤ) - 8 := by
  have hsome : ((run (step firstByte (fun _ ↦ false) twoPages) .noFile traded).bind Stage.file).isSome := by
    decide +kernel
  obtain ⟨file, memory, hrun⟩ := Stage.exists_of_isSome hsome
  have hleak : (((run (step firstByte (fun _ ↦ false) twoPages) .noFile traded).bind Stage.file).bind
      (Loader.ofFile (fun _ ↦ false) twoPages false)).any (fun loaded ↦ loaded.1.mGaps.any fun mGaps ↦
        loaded.1.compressed = true ∧ owned twoPages.owners (diskRange loaded.1) 8 + cover mGaps.gaps 8 = 0 ∧
        between 8 loaded.2 8 = 1 ∧ mGaps.wastedSpace + ∑ id ∈ twoPages.owners, (diskRange loaded.1 id).size + 4 =
          (loaded.2 : ℤ) - 8) = true := by
    decide +kernel
  rw [hrun] at hleak
  obtain ⟨⟨loader, startPosInFile⟩, hloader, hleak⟩ := (Option.any_eq_true _ _).mp hleak
  obtain ⟨mGaps, hgaps, hleak⟩ := (Option.any_eq_true _ _).mp hleak
  exact ⟨file, memory, loader, startPosInFile, mGaps, hrun, hloader, hgaps, of_decide_eq_true hleak⟩

end Steps

end FdeEmugl.SaveChain
