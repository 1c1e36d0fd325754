import FdeEmugl.Snapshot.RamSaver

/-!
# Looking up the pages of the previous snapshot

An incremental save asks the loader for the old page of each page of a block. The pages of all blocks
are one vector, and `findPage` lets the place behind the last page of a block pass: this is the first
page of the next block, or no page at all. The comparison with the previous snapshot uses a page that
it did not get.
-/

namespace FdeEmugl.Snapshot

open FdeEmugl.Stream
open Option (bind_some map_eq_some_iff mem_some_iff)

/-! ## `RamLoader` -/

namespace Loader

/-- The result is null, or the place in `mIndex.pages` that the pointer is to, where there may be no
page. -/
def findPagePtr (loader : Loader) (blockIndex pageIndex : ℤ) : Option ℕ :=
  if blockIndex < 0 ∨ blockIndex ≥ loader.blocks.length then none
  else loader.blocks[blockIndex.toNat]?.bind fun block ↦
    if pageIndex < 0 ∨ pageIndex > (block.pagesEnd : ℤ) - block.pagesBegin then none
    else some (block.pagesBegin + pageIndex.toNat)

/-- The states change while the pages are loaded. -/
def withStates (states : ℕ → PageState) (loader : Loader) : Loader :=
  { loader with pages := loader.pages.mapIdx fun position page ↦ { page with state := states position } }

/-- The block of an index, if there is one. -/
def blockAt (loader : Loader) (blockIndex : ℤ) : Option LoaderBlock :=
  if blockIndex < 0 then none else loader.blocks[blockIndex.toNat]?

end Loader

def LoaderBlock.pageCount (block : LoaderBlock) : ℕ := block.pagesEnd - block.pagesBegin

/-! ## `RamSaver` -/

/-- `state < Filled` -/
def PageState.beforeFilled : PageState → Bool
  | .Empty | .Reading | .Read | .Filling => true
  | .Filled | .Error => false

namespace SaverPage

/-- Without a result a pointer is followed to where no page is. -/
def lookUp (loader : Loader) (mLoaderOnDemand : Bool) (blockIndex pageIndex : ℤ) (page : SaverPage) :
    Option SaverPage :=
  match loader.findPagePtr blockIndex pageIndex with
  | none => some page
  | some position =>
    if mLoaderOnDemand then
      loader.pages[position]?.map fun loaderPage ↦ page.setLoaderPage loaderPage loaderPage.state.beforeFilled
    else some { page with loaderPage := loader.pages[position]? }

/-- Only the first test of the comparison asks whether there is a page of the loader. -/
def compareLoaded (page : SaverPage) : Option SaverPage :=
  page.loaderPage.map fun loaderPage ↦ page.compare loaderPage

end SaverPage

/-- A block of the machine when it is saved again. -/
structure CurrentBlock where
  ramBlock : RamBlock
  contents : List Contents
  numPages_lt : contents.length < 2 ^ 31

/-- The first time that `savePage` sees a block. Without a result a missing page is used. -/
def CurrentBlock.savePage (codec : Codec) (loader : Loader) (mLoaderOnDemand : Bool) (blockIndex : ℤ)
    (block : CurrentBlock) : Option (List SaverPage) :=
  block.contents.zipIdx.mapM fun page ↦
    ((SaverPage.new page.1).lookUp loader mLoaderOnDemand blockIndex page.2).bind fun looked ↦
      (looked.calcHash codec page.1).compareLoaded

/-! ## What a look-up should find -/

/-- The answer is a page of the block, or null if the block has no page of the index. -/
structure Loader.FindsOwn (loader : Loader) (blockIndex pageIndex : ℤ) : Prop where
  null_iff : loader.findPagePtr blockIndex pageIndex = none ↔
    ¬ ∃ block ∈ loader.blockAt blockIndex, 0 ≤ pageIndex ∧ pageIndex < block.pageCount
  own : ∀ position ∈ loader.findPagePtr blockIndex pageIndex, ∃ block ∈ loader.blockAt blockIndex,
    block.pagesBegin ≤ position ∧ position < block.pagesEnd ∧ position < loader.pages.length

/-- Every block that is saved is compared without using a missing page, and each of its pages with a
page of its own block. -/
structure ComparesOwn (codec : Codec) (loader : Loader) (mLoaderOnDemand async : Bool)
    (current : List CurrentBlock) : Prop where
  total : ∀ (blockIndex : ℕ) block, current[blockIndex]? = some block → block.ramBlock.saved async = true →
    (block.savePage codec loader mLoaderOnDemand blockIndex).isSome
  own : ∀ (blockIndex : ℕ) block, current[blockIndex]? = some block → block.ramBlock.saved async = true →
    ∀ pageIndex < block.contents.length, loader.FindsOwn blockIndex pageIndex

/-- No block that is saved has got more pages. -/
def NoneGrown (async : Bool) (loader : Loader) (current : List CurrentBlock) : Prop :=
  ∀ pair ∈ current.zip loader.blocks, pair.1.ramBlock.saved async = true → pair.1.contents.length ≤ pair.2.pageCount

/-! ## Where the pages of the blocks are -/

/-- The loader has the registered blocks, and the pages of each are in the vector. -/
structure Loader.Indexes (registered : List RamBlock) (loader : Loader) : Prop where
  ids_eq : (loader.blocks.map fun block ↦ block.ramBlock.id) = registered.map RamBlock.id
  begin_le : ∀ block ∈ loader.blocks, block.pagesBegin ≤ block.pagesEnd
  end_le : ∀ block ∈ loader.blocks, block.pagesEnd ≤ loader.pages.length

namespace Loader

variable {registered : List RamBlock} {loader next : Loader}

variable {pageCount : ℕ} {hasRamFile : List UInt8 → Bool} {stream rest : List UInt8}

theorem indexes_registered (mIndexOnly : Bool) (registered : List RamBlock) :
    (registered.foldl registerBlock (new mIndexOnly)).Indexes registered := by
  have hblocks : (registered.foldl registerBlock (new mIndexOnly)).blocks =
      registered.map fun block ↦ ⟨block, 0, 0⟩ := (foldl_registerBlock (new mIndexOnly) registered).1
  refine ⟨?_, ?_, ?_⟩
  · rw [hblocks, List.map_map]
    rfl
  · simp [hblocks]
  · simp [hblocks]

section

variable (hindexes : loader.Indexes registered)
include hindexes

/-- A change of one block that gives it pages of the vector. -/
theorem Indexes.modify {position : ℕ} {change : LoaderBlock → LoaderBlock}
    (hpages : loader.pages.length ≤ next.pages.length)
    (hblocks : next.blocks = loader.blocks.modify position change)
    (hid : ∀ block, (change block).ramBlock.id = block.ramBlock.id)
    (hchange : ∀ block ∈ loader.blocks, (change block).pagesBegin ≤ (change block).pagesEnd ∧ (change block).pagesEnd ≤ next.pages.length) :
    next.Indexes registered := by
  have hold : ∀ block ∈ next.blocks, ∃ old ∈ loader.blocks, block = old ∨ block = change old := by
    intro block hblock
    rw [hblocks] at hblock
    obtain ⟨index, hget⟩ := List.mem_iff_getElem?.mp hblock
    rw [List.getElem?_modify] at hget
    obtain ⟨old, hold, rfl⟩ := map_eq_some_iff.mp hget
    refine ⟨old, List.mem_of_getElem? hold, ?_⟩
    split_ifs
    · exact .inr rfl
    · exact .inl rfl
  refine ⟨?_, fun block hblock ↦ ?_, fun block hblock ↦ ?_⟩
  · rw [hblocks, map_id_modify hid, hindexes.ids_eq]
  · obtain ⟨old, hmem, rfl | rfl⟩ := hold block hblock
    · exact hindexes.begin_le _ hmem
    · exact (hchange old hmem).1
  · obtain ⟨old, hmem, rfl | rfl⟩ := hold block hblock
    · exact (hindexes.end_le _ hmem).trans hpages
    · exact (hchange old hmem).2

theorem Indexes.toFileBacking (blockIndex : ℕ) (header : Header) :
    (loader.toFileBacking blockIndex header).Indexes registered :=
  hindexes.modify le_rfl rfl (fun _ ↦ rfl) fun block hblock ↦
    ⟨hindexes.begin_le block hblock, hindexes.end_le block hblock⟩

theorem Indexes.appendPages {blockIndex : ℕ} {pages : List LoaderPage}
    (happend : loader.appendPages pageCount blockIndex pages = some next) : next.Indexes registered := by
  unfold Loader.appendPages at happend
  split_ifs at happend
  cases happend
  refine hindexes.modify ?_ rfl (fun _ ↦ rfl) fun block _ ↦ ⟨by simp, by simp⟩
  simp

theorem Indexes.readBlockPages {compressed : Bool} {blockIndex : ℕ} {block : RamBlock} {running running' : Cursor}
    (hread : loader.readBlockPages hasRamFile compressed pageCount blockIndex block running stream = some (next, running', rest)) :
    next.Indexes registered := by
  unfold Loader.readBlockPages at hread
  dsimp only at hread
  split at hread
  · obtain ⟨rfl, -⟩ := Prod.mk.inj (Option.some.inj hread)
    exact hindexes
  split at hread
  · obtain ⟨rfl, -⟩ := Prod.mk.inj (Option.some.inj hread)
    exact hindexes
  split at hread
  · split_ifs at hread <;> obtain ⟨rfl, -⟩ := Prod.mk.inj (Option.some.inj hread) <;>
      exact ⟨hindexes.ids_eq, hindexes.begin_le, hindexes.end_le⟩
  · obtain ⟨appended, happended, hsame⟩ := map_eq_some_iff.mp hread
    obtain ⟨rfl, -⟩ := Prod.mk.inj hsame
    refine Indexes.appendPages ?_ happended
    split_ifs
    · exact hindexes.toFileBacking blockIndex _
    · exact hindexes

theorem Indexes.readBlocks {compressed : Bool} {count : ℕ} {running : Cursor}
    (hread : loader.readBlocks hasRamFile compressed pageCount count running stream = some (next, rest)) :
    next.Indexes registered := by
  induction count generalizing loader running stream with
  | zero =>
    obtain ⟨rfl, -⟩ := Prod.mk.inj (Option.some.inj hread)
    exact hindexes
  | succ count ih =>
    unfold Loader.readBlocks at hread
    obtain ⟨blockIndex, -, hread⟩ := Option.bind_eq_some_iff.mp hread
    obtain ⟨block, -, hread⟩ := Option.bind_eq_some_iff.mp hread
    obtain ⟨⟨middle, running', stream'⟩, hblock, hread⟩ := Option.bind_eq_some_iff.mp hread
    exact ih (hindexes.readBlockPages hblock) hread

/-- Whatever the stream holds, the pages of each block are in the vector. -/
theorem Indexes.readIndex (hread : loader.readIndex hasRamFile stream = some (next, rest)) :
    next.Indexes registered := by
  unfold Loader.readIndex at hread
  dsimp only at hread
  split at hread
  · cases hread
  obtain ⟨⟨middle, stream'⟩, hblocks, hnext⟩ := map_eq_some_iff.mp hread
  have hstart : ({ loader with
      flags := (getBe32 (getBe32 stream).2).1
      mVersion := (getBe32 stream).1.toNat } : Loader).Indexes registered :=
    ⟨hindexes.ids_eq, hindexes.begin_le, hindexes.end_le⟩
  have hmiddle := hstart.readBlocks hblocks
  dsimp only at hnext
  split_ifs at hnext <;> obtain ⟨rfl, -⟩ := Prod.mk.inj hnext
  · exact ⟨hmiddle.ids_eq, hmiddle.begin_le, hmiddle.end_le⟩
  · exact hmiddle

theorem Indexes.withStates (states : ℕ → PageState) : (loader.withStates states).Indexes registered :=
  ⟨hindexes.ids_eq, hindexes.begin_le, by simpa [Loader.withStates] using hindexes.end_le⟩

end

/-! ## Look-ups -/

variable {block : LoaderBlock} {blockIndex pageIndex : ℤ}

theorem findPagePtr_of_none (h : loader.blockAt blockIndex = none) :
    loader.findPagePtr blockIndex pageIndex = none := by
  unfold blockAt at h
  unfold findPagePtr
  split_ifs at h with hneg
  · rw [if_pos (.inl hneg)]
  · have hlen := List.getElem?_eq_none_iff.mp h
    rw [if_pos (.inr (by omega))]

theorem findPagePtr_of_some (h : loader.blockAt blockIndex = some block) : loader.findPagePtr blockIndex pageIndex =
      if pageIndex < 0 ∨ pageIndex > (block.pagesEnd : ℤ) - block.pagesBegin then none
      else some (block.pagesBegin + pageIndex.toNat) := by
  unfold blockAt at h
  unfold findPagePtr
  split_ifs at h with hneg
  obtain ⟨hlt, -⟩ := List.getElem?_eq_some_iff.mp h
  rw [if_neg (by omega), h, bind_some]

/-- The look-up that the other modules use sees only the page, not the place. -/
theorem findPage_eq (loader : Loader) (blockIndex pageIndex : ℕ) (hindexes : loader.Indexes registered) :
    loader.findPage (blockIndex, pageIndex) =
      (loader.findPagePtr blockIndex pageIndex).bind fun position ↦ loader.pages[position]? := by
  have hat : loader.blockAt blockIndex = loader.blocks[blockIndex]? := if_neg (by omega)
  unfold findPage
  dsimp only
  cases hblock : loader.blocks[blockIndex]? with
  | none => rw [findPagePtr_of_none (hat.trans hblock), Option.bind_none, Option.bind_none]
  | some block =>
    have hle := hindexes.begin_le block (List.mem_of_getElem? hblock)
    rw [findPagePtr_of_some (hat.trans hblock), bind_some]
    split_ifs with hfar hptr hptr
    · rfl
    · omega
    · omega
    · rfl

/-- The place behind the last page of a block is the only one that a look-up should not give out. -/
theorem findsOwn_iff (hindexes : loader.Indexes registered) : loader.FindsOwn blockIndex pageIndex ↔
      ∀ block ∈ loader.blockAt blockIndex, pageIndex ≠ block.pageCount := by
  cases hat : loader.blockAt blockIndex with
  | none =>
    have hptr : loader.findPagePtr blockIndex pageIndex = none := findPagePtr_of_none hat
    refine iff_of_true ⟨?_, ?_⟩ (by simp)
    · simp [hptr, hat]
    · simp [hptr]
  | some block =>
    have hmem : block ∈ loader.blocks := by
      unfold blockAt at hat
      split_ifs at hat
      exact List.mem_of_getElem? hat
    have hbegin := hindexes.begin_le block hmem
    have hend := hindexes.end_le block hmem
    have hptr : loader.findPagePtr blockIndex pageIndex = _ := findPagePtr_of_some hat
    simp only [mem_some_iff, forall_eq']
    unfold LoaderBlock.pageCount
    constructor
    · rintro ⟨-, hown⟩ hlast
      rw [if_neg (by omega)] at hptr
      obtain ⟨own, hown, hplace⟩ := hown _ hptr
      cases hat.symm.trans hown
      omega
    · intro hne
      refine ⟨?_, fun position hposition ↦ ⟨block, hat, ?_⟩⟩
      · rw [hptr, hat]
        split_ifs with hout
        · simp only [true_iff, mem_some_iff, exists_eq_left', LoaderBlock.pageCount]
          omega
        · simp only [false_iff, not_not, mem_some_iff, exists_eq_left', LoaderBlock.pageCount]
          omega
      · rw [hptr] at hposition
        split_ifs at hposition with hout
        · cases hposition
        · obtain rfl := mem_some_iff.mp hposition
          omega

end Loader

/-! ## `savePage` -/

section Compare

variable {codec : Codec} {loader : Loader} {mLoaderOnDemand async : Bool} {blockIndex pageIndex : ℤ}
variable {registered : List RamBlock} {current : List CurrentBlock}

theorem isSome_mapM {α β : Type} {f : α → Option β} (xs : List α) : (xs.mapM f).isSome ↔ ∀ x ∈ xs, (f x).isSome := by
  induction xs with
  | nil => simp
  | cons x xs ih =>
    rw [List.mapM_cons, List.forall_mem_cons, ← ih]
    cases f x with
    | none => simp
    | some y => cases xs.mapM f <;> simp

/-- A page is compared if and only if the look-up is for a place with a page. -/
theorem SaverPage.isSome_compareLoaded_lookUp (contents : Contents) :
    (((SaverPage.new contents).lookUp loader mLoaderOnDemand blockIndex pageIndex).bind fun looked ↦
      (looked.calcHash codec contents).compareLoaded).isSome ↔
        ∃ position ∈ loader.findPagePtr blockIndex pageIndex, position < loader.pages.length := by
  have hkept (page : SaverPage) : (page.calcHash codec contents).loaderPage = page.loaderPage := by
    unfold SaverPage.calcHash
    split_ifs <;> rfl
  unfold SaverPage.lookUp
  cases hptr : loader.findPagePtr blockIndex pageIndex with
  | none => simp [SaverPage.compareLoaded, hkept, SaverPage.new]
  | some position =>
    simp only [mem_some_iff, exists_eq_left']
    cases hpage : loader.pages[position]? with
    | none =>
      have hbehind := List.getElem?_eq_none_iff.mp hpage
      refine iff_of_false ?_ (by omega)
      cases mLoaderOnDemand <;> simp [SaverPage.compareLoaded, hkept]
    | some loaderPage =>
      obtain ⟨hlt, -⟩ := List.getElem?_eq_some_iff.mp hpage
      refine iff_of_true ?_ hlt
      cases mLoaderOnDemand with
      | false => simp [SaverPage.compareLoaded, hkept]
      | true =>
        simp only [if_true, Option.map_some, bind_some, SaverPage.compareLoaded, hkept, Option.isSome_map]
        unfold SaverPage.setLoaderPage
        split_ifs <;> rfl

theorem CurrentBlock.isSome_savePage (block : CurrentBlock) :
    (block.savePage codec loader mLoaderOnDemand blockIndex).isSome ↔
      ∀ pageIndex < block.contents.length, ∃ position ∈ loader.findPagePtr blockIndex pageIndex,
        position < loader.pages.length := by
  unfold CurrentBlock.savePage
  rw [isSome_mapM]
  simp only [SaverPage.isSome_compareLoaded_lookUp]
  constructor
  · intro h pageIndex hlt
    exact h (block.contents[pageIndex], pageIndex) (List.mk_mem_zipIdx_iff_getElem?.mpr (by simp [hlt]))
  · intro h page hpage
    obtain ⟨hlt, -⟩ := List.getElem?_eq_some_iff.mp (List.mk_mem_zipIdx_iff_getElem?.mp hpage)
    exact h page.2 hlt

/-- A block is compared with its own pages if and only if it has not got more pages. -/
theorem CurrentBlock.compares_iff {own : LoaderBlock} (block : CurrentBlock)
    (hindexes : loader.Indexes registered) (hat : loader.blockAt blockIndex = some own) :
    ((block.savePage codec loader mLoaderOnDemand blockIndex).isSome ∧
        ∀ pageIndex < block.contents.length, loader.FindsOwn blockIndex pageIndex) ↔
      block.contents.length ≤ own.pageCount := by
  simp only [block.isSome_savePage, Loader.findsOwn_iff hindexes, hat, mem_some_iff, forall_eq']
  constructor
  · rintro ⟨-, hfinds⟩
    by_contra hmore
    exact hfinds own.pageCount (by omega) rfl
  · intro hle
    refine ⟨fun pageIndex hlt ↦ ?_, fun pageIndex hlt ↦ by omega⟩
    have hown : loader.FindsOwn blockIndex pageIndex := by
      rw [Loader.findsOwn_iff hindexes, hat]
      intro own' hown'
      obtain rfl := mem_some_iff.mp hown'
      omega
    obtain ⟨position, hposition⟩ : ∃ position, loader.findPagePtr blockIndex pageIndex = some position := by
      rw [← Option.ne_none_iff_exists', Ne, hown.null_iff, not_not]
      exact ⟨own, hat, by omega, by omega⟩
    obtain ⟨_, -, -, -, hpage⟩ := hown.own position hposition
    exact ⟨position, hposition, hpage⟩

/-- For blocks of the same ids, the comparison is right if and only if no block has got more pages. -/
theorem comparesOwn_iff (hindexes : loader.Indexes registered)
    (hids : (current.map fun block ↦ block.ramBlock.id) = registered.map RamBlock.id) :
    ComparesOwn codec loader mLoaderOnDemand async current ↔ NoneGrown async loader current := by
  have hlength : current.length = loader.blocks.length := by
    have hcurrent := congrArg List.length hids
    have hloader := congrArg List.length hindexes.ids_eq
    simp only [List.length_map] at hcurrent hloader
    omega
  have hpair : ∀ (blockIndex : ℕ) block, current[blockIndex]? = some block →
      ∃ own, loader.blockAt blockIndex = some own ∧ (block, own) ∈ current.zip loader.blocks := by
    intro blockIndex block hblock
    obtain ⟨hlt, -⟩ := List.getElem?_eq_some_iff.mp hblock
    have hown := List.getElem?_eq_getElem (l := loader.blocks) (hlength ▸ hlt)
    exact ⟨_, hown, List.mem_of_getElem? (List.getElem?_zip_eq_some.mpr ⟨hblock, hown⟩)⟩
  constructor
  · intro h pair hmem hsaved
    obtain ⟨blockIndex, hget⟩ := List.mem_iff_getElem?.mp hmem
    obtain ⟨hblock, hown⟩ := List.getElem?_zip_eq_some.mp hget
    have hat : loader.blockAt blockIndex = some pair.2 := hown
    exact (pair.1.compares_iff hindexes hat).mp
      ⟨h.total blockIndex _ hblock hsaved, h.own blockIndex _ hblock hsaved⟩
  · intro h
    have hcompares : ∀ (blockIndex : ℕ) block, current[blockIndex]? = some block → block.ramBlock.saved async = true →
        (block.savePage codec loader mLoaderOnDemand blockIndex).isSome ∧
          ∀ pageIndex < block.contents.length, loader.FindsOwn blockIndex pageIndex := by
      intro blockIndex block hblock hsaved
      obtain ⟨own, hat, hmem⟩ := hpair blockIndex block hblock
      exact (block.compares_iff hindexes hat).mpr (h _ hmem hsaved)
    exact ⟨fun blockIndex block hget hsaved ↦ (hcompares blockIndex block hget hsaved).1,
      fun blockIndex block hget hsaved ↦ (hcompares blockIndex block hget hsaved).2⟩

/-- Whatever index was loaded and however far its pages are by now, for the same blocks with any
contents: the comparison is right exactly if no block that is saved has got more pages, and a look-up
exactly if it is not for the place behind the last page of the block. -/
theorem compares_and_finds_iff {hasRamFile : List UInt8 → Bool} {mIndexOnly : Bool} {stream rest : List UInt8}
    {loaded : Loader} (codec : Codec) (mLoaderOnDemand async : Bool) (states : ℕ → PageState)
    (hread : (registered.foldl Loader.registerBlock (.new mIndexOnly)).readIndex hasRamFile stream =
      some (loaded, rest))
    (hids : (current.map fun block ↦ block.ramBlock.id) = registered.map RamBlock.id) :
    (ComparesOwn codec (loaded.withStates states) mLoaderOnDemand async current ↔
        NoneGrown async loaded current) ∧
      ∀ blockIndex pageIndex : ℤ, (loaded.withStates states).FindsOwn blockIndex pageIndex ↔
        ∀ block ∈ loaded.blockAt blockIndex, pageIndex ≠ block.pageCount := by
  have hloaded := (Loader.indexes_registered mIndexOnly registered).readIndex hread
  have hindexes := hloaded.withStates states
  exact ⟨comparesOwn_iff hindexes hids, fun _ _ ↦ Loader.findsOwn_iff hindexes⟩

end Compare

/-- Two blocks. -/
def twoBlocks : List RamBlock := [ramBlock, otherBlock]

/-- An index in which each of them has one page, all zeros. -/
def twoBlocksIndex : List UInt8 :=
  [0, 0, 0, 2, 0, 0, 0, 0, 0, 0, 0, 2] ++
    ([1, 0x72, 0, 0, 0, 1, 0, 0, 16, 0, 0, 0, 0, 0, 0, 0, 0, 0, 0] ++
      ([1, 0x73, 0, 0, 0, 1, 0, 0, 16, 0, 0, 0, 0, 0, 0, 0, 0, 0, 0] ++ [0, 0, 0, 0]))

/-- The blocks when they are saved again: the first has some more pages. -/
def grownBlocks (more : Fin 1024) : List CurrentBlock :=
  [⟨ramBlock, List.replicate (1 + more) .zero, by
      rw [List.length_replicate]; omega⟩,
    ⟨otherBlock, [.zero], by decide⟩]

theorem readIndex_twoBlocks :
    ((twoBlocks.foldl Loader.registerBlock (.new true)).readIndex (fun _ ↦ false) twoBlocksIndex).map
        (fun loaded ↦ (loaded.2, loaded.1.pages.map LoaderPage.blockIndex,
          [loaded.1.findPagePtr 0 1, loaded.1.findPagePtr 0 2],
          loaded.1.blocks.map fun block ↦ (block.pagesBegin, block.pagesEnd))) =
      some ([], [0, 1], [some 1, none], [(0, 1), (1, 2)]) := by
  decide +kernel

/-- The look-up of a second page of the first block finds the page of the second block, and with a
third page the comparison follows a null pointer. -/
theorem grown_block_compared :
    ∃ loaded, (twoBlocks.foldl Loader.registerBlock (.new true)).readIndex (fun _ ↦ false) twoBlocksIndex =
        some (loaded, []) ∧
      loaded.findPagePtr 0 1 = some 1 ∧ loaded.pages[1]?.map LoaderPage.blockIndex = some 1 ∧
      ¬ loaded.FindsOwn 0 1 ∧
      ∀ codec, ¬ ComparesOwn codec loaded false false (grownBlocks 2) ∧
        ∀ block ∈ (grownBlocks 2).head?, block.savePage codec loaded false 0 = none := by
  obtain ⟨⟨loaded, rest⟩, hread, hresult⟩ := map_eq_some_iff.mp readIndex_twoBlocks
  simp only [Prod.mk.injEq, List.cons.injEq, and_true] at hresult
  obtain ⟨rfl, hpages, ⟨hsecond, hthird⟩, hblocks⟩ := hresult
  have hnone : ∀ codec, ∀ block ∈ (grownBlocks 2).head?, block.savePage codec loaded false 0 = none := by
    intro codec block hblock
    obtain rfl := mem_some_iff.mp hblock
    rw [← Option.not_isSome_iff_eq_none, CurrentBlock.isSome_savePage]
    intro hall
    obtain ⟨position, hposition, -⟩ := hall 2 (by simp)
    rw [Int.cast_ofNat_Int, hthird] at hposition
    cases hposition
  refine ⟨loaded, hread, hsecond, ?_, ?_, fun codec ↦ ⟨fun hcompares ↦ ?_, hnone codec⟩⟩
  · rw [← List.getElem?_map, hpages]
    rfl
  · intro hown
    obtain ⟨block, hat, hplace⟩ := hown.own 1 hsecond
    have hblock : (loaded.blocks[0]?.map fun block ↦ (block.pagesBegin, block.pagesEnd)) = some (0, 1) := by
      rw [← List.getElem?_map, hblocks]
      rfl
    obtain ⟨own, hown, hbounds⟩ := map_eq_some_iff.mp hblock
    have hsame : block = own := Option.some.inj (hat.symm.trans hown)
    obtain ⟨-, hend⟩ := Prod.mk.inj hbounds
    rw [hsame] at hplace
    omega
  · have hsome := hcompares.total 0 _ rfl rfl
    rw [Nat.cast_zero, hnone codec _ rfl] at hsome
    cases hsome

/-- Blocks that have not grown. -/
theorem compares_and_finds_iff_twoBlocks :
    ∃ loaded, (twoBlocks.foldl Loader.registerBlock (.new true)).readIndex (fun _ ↦ false) twoBlocksIndex =
        some (loaded, []) ∧
      ∀ codec, ComparesOwn codec (loaded.withStates fun _ ↦ .Filled) true false (grownBlocks 0) := by
  obtain ⟨⟨loaded, rest⟩, hread, hresult⟩ := map_eq_some_iff.mp readIndex_twoBlocks
  simp only [Prod.mk.injEq] at hresult
  refine ⟨loaded, hresult.1 ▸ hread, fun codec ↦ ?_⟩
  refine (compares_and_finds_iff codec true false (fun _ ↦ .Filled) hread rfl).1.mpr ?_
  obtain ⟨first, second, hblocks, hfirst, hsecond⟩ : ∃ first second, loaded.blocks = [first, second] ∧
      (first.pagesBegin, first.pagesEnd) = (0, 1) ∧ (second.pagesBegin, second.pagesEnd) = (1, 2) := by
    simpa [List.map_eq_cons_iff] using hresult.2.2.2
  simp only [Prod.mk.injEq] at hfirst hsecond
  unfold NoneGrown
  rw [hblocks]
  simp [grownBlocks, LoaderBlock.pageCount, hfirst, hsecond]

end FdeEmugl.Snapshot
