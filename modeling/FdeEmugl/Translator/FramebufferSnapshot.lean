import FdeEmugl.Library.Runs
import FdeEmugl.Pipe.LengthPrefix
import FdeEmugl.Translator.FramebufferData

/-!
# Snapshots of framebuffers

A framebuffer that is loaded has the attachments that were saved, and they are attached again on the host under
their new names. Its own new name is not stored, so that the first validation which binds the framebuffer again
leaves the host without one.
-/

namespace FdeEmugl.Framebuffers

open Runs FdeEmugl.Stream

/-! ## The host -/

inductive HostAttachment where
  | renderbuffer (name : ℕ)
  | texture (textarget name : ℕ)
deriving DecidableEq

/-- The framebuffer of the host that is bound, and what is attached to each of them, drawn to and read. -/
structure Host where
  bound : ℕ
  attached : ℕ → ℕ → Option HostAttachment
  drawBuffers : ℕ → List ℕ
  readBuffer : ℕ → ℕ

/-- `GL_DEPTH_STENCIL_ATTACHMENT` stands for two points. -/
def hostPoints (attachment : ℕ) : List ℕ :=
  if attachment = GL_DEPTH_STENCIL_ATTACHMENT then [GL_DEPTH_ATTACHMENT, GL_STENCIL_ATTACHMENT] else [attachment]

namespace Host

variable (host : Host)

def glBindFramebuffer (name : ℕ) : Host := { host with bound := name }

def attach (attachment : ℕ) (contents : Option HostAttachment) : Host :=
  { host with
    attached := Function.update host.attached host.bound fun point ↦
      if point ∈ hostPoints attachment then contents else host.attached host.bound point }

def glFramebufferRenderbuffer (attachment name : ℕ) : Host :=
  host.attach attachment (if name = 0 then none else some (.renderbuffer name))

/-- A texture of another target is an error. -/
def glFramebufferTexture2D (takes2D : ℕ → Bool) (attachment textarget name : ℕ) : Host :=
  if name = 0 then host.attach attachment none
  else if takes2D textarget then host.attach attachment (some (.texture textarget name))
  else host

end Host

/-! ## Validation -/

/-- `tex` is the texture that the host makes if it is needed, `globalName` what the share group gives for it. -/
def validate (takes2D : ℕ → Bool) (tex globalName : ℕ) (objects : Objects) (host : Host) (fb : FramebufferData) :
    Objects × Host × FramebufferData :=
  let needsColor := (fb.attachPoints (attachmentPointIndex GL_COLOR_ATTACHMENT0)).name = 0
  if needsColor ∧ host.attached host.bound GL_DEPTH_ATTACHMENT = none ∧
      host.attached host.bound GL_STENCIL_ATTACHMENT = none then (objects, host, fb)
  else
    let host :=
      if needsColor then host.glFramebufferTexture2D takes2D GL_COLOR_ATTACHMENT0 GL_TEXTURE_2D tex else host
    let (objects, fb) :=
      if needsColor then setAttachment GL_COLOR_ATTACHMENT0 GL_TEXTURE_2D tex none true globalName objects fb
      else (objects, fb)
    if fb.dirty then
      (objects, (host.glBindFramebuffer 0).glBindFramebuffer fb.fbGlobalName, { fb with dirty := false })
    else (objects, host, fb)

/-! ## The stream -/

inductive NamedObjectType where
  | texture
  | renderbuffer
  | framebuffer
deriving DecidableEq

def FRAMEBUFFER_DATA : ℕ := 5
def NULLTYPE : ℕ := 0
def RENDERBUFFER : ℕ := 3

def AttachPoint.objType (point : AttachPoint) : ℕ := if point.obj.isSome then RENDERBUFFER else NULLTYPE

def putNat (value : ℕ) : List UInt8 := putBe32 (UInt32.ofNat value)

def AttachPoint.onSave (point : AttachPoint) : List UInt8 :=
  putNat point.target ++ (putNat point.name ++ (putNat point.objType ++ putByte (ofBool point.owned)))

def FramebufferData.onSave (fb : FramebufferData) : List UInt8 :=
  putNat FRAMEBUFFER_DATA ++ (putNat fb.fbName ++ (putNat MAX_ATTACH_POINTS ++
    ((List.range (MAX_ATTACH_POINTS + 1)).flatMap (fun idx ↦ (fb.attachPoints idx).onSave) ++
      (putByte (ofBool fb.dirty) ++ (putByte (ofBool fb.hasBeenBound) ++ (putByte (ofBool fb.hasDrawBuffers) ++
        (putNat fb.drawBuffers.length ++ (fb.drawBuffers.flatMap (fun buf ↦ Pipe.putLe32 (UInt32.ofNat buf)) ++
          putNat fb.readBuffer))))))))

/-- The points of the table and the types of their objects, which are not there yet. -/
def loadPoints : ℕ → List UInt8 → List (AttachPoint × ℕ) × List UInt8
  | 0, stream => ([], stream)
  | count + 1, stream =>
    let (target, stream) := getBe32 stream
    let (name, stream) := getBe32 stream
    let (objType, stream) := getBe32 stream
    let (owned, stream) := getByte stream
    let (points, stream) := loadPoints count stream
    ((⟨target.toNat, name.toNat, 0, none, owned ≠ 0⟩, objType.toNat) :: points, stream)

/-- `loadBuffer` of words in the order of the host. -/
def loadWords : ℕ → List UInt8 → List ℕ × List UInt8
  | 0, stream => ([], stream)
  | count + 1, stream =>
    let (word, stream) := Stream.read 4 stream
    let (words, stream) := loadWords count stream
    ((Pipe.getLe32 word).toNat :: words, stream)

/-- A framebuffer between its construction from a stream and `postLoad`. -/
structure LoadedFramebuffer where
  data : FramebufferData
  objType : ℕ → ℕ

/-- The global name of the framebuffer is not set. -/
def FramebufferData.load (stream : List UInt8) : LoadedFramebuffer × List UInt8 :=
  let (_, stream) := getBe32 stream
  let (fbName, stream) := getBe32 stream
  let (_, stream) := getBe32 stream
  let (points, stream) := loadPoints (MAX_ATTACH_POINTS + 1) stream
  let (dirty, stream) := getByte stream
  let (hasBeenBound, stream) := getByte stream
  let (hasDrawBuffers, stream) := getByte stream
  let (count, stream) := getBe32 stream
  let (drawBuffers, stream) := loadWords count.toNat stream
  let (readBuffer, stream) := getBe32 stream
  (⟨{ fbName := fbName.toNat
      fbGlobalName := 0
      attachPoints := fun idx ↦ (points.getD idx (.empty, NULLTYPE)).1
      dirty := dirty ≠ 0
      hasBeenBound := hasBeenBound ≠ 0
      hasDrawBuffers := hasDrawBuffers ≠ 0
      drawBuffers
      readBuffer := readBuffer.toNat }, fun idx ↦ (points.getD idx (.empty, NULLTYPE)).2⟩, stream)

/-- A renderbuffer that is not found is made. -/
def LoadedFramebuffer.postLoad (loaded : LoadedFramebuffer) (getObjDataPtr : ℕ → ℕ → Option ℕ) (made : ℕ → ℕ) :
    FramebufferData :=
  { loaded.data with
    attachPoints := fun idx ↦
      let point := loaded.data.attachPoints idx
      { point with
        obj :=
          if loaded.objType idx ≠ NULLTYPE then some ((getObjDataPtr (loaded.objType idx) point.name).getD (made idx))
          else none } }

/-! ## Restoring -/

def index2Attachment (idx : ℕ) : ℕ :=
  if idx = 0 then GL_COLOR_ATTACHMENT0
  else if idx = 1 then GL_DEPTH_ATTACHMENT
  else if idx = 2 then GL_STENCIL_ATTACHMENT
  else if idx = 3 then GL_DEPTH_STENCIL_ATTACHMENT
  else idx - 4 + GL_COLOR_ATTACHMENT1

section

variable (takes2D : ℕ → Bool) (getGlobalName : NamedObjectType → ℕ → ℕ)

def restorePoint (idx : ℕ) (host : Host) (fb : FramebufferData) : Host × FramebufferData :=
  let point := fb.attachPoints idx
  let put (point : AttachPoint) := { fb with attachPoints := Function.update fb.attachPoints idx point }
  if point.name = 0 then (host, fb)
  else if point.owned then (host, put { point with name := 0 })
  else if point.obj.isSome then
    let globalName := getGlobalName .renderbuffer point.name
    (host.glFramebufferRenderbuffer (index2Attachment idx) globalName, put { point with globalName })
  else
    let globalName := getGlobalName .texture point.name
    (host.glFramebufferTexture2D takes2D (index2Attachment idx) point.target globalName,
      put { point with globalName })

/-- The turns of the loop of `restore`. -/
def restorePoints : ℕ → Host → FramebufferData → Host × FramebufferData
  | 0, host, fb => (host, fb)
  | n + 1, host, fb =>
    let (host, fb) := restorePoints n host fb
    restorePoint takes2D getGlobalName n host fb

/-- The buffers that are drawn to and read are those of the framebuffer that is bound. -/
def restore (localName : ℕ) (host : Host) (fb : FramebufferData) : Host × FramebufferData :=
  if !fb.hasBeenBound then (host, fb)
  else
    let host := host.glBindFramebuffer (getGlobalName .framebuffer localName)
    let (host, fb) := restorePoints takes2D getGlobalName MAX_ATTACH_POINTS host fb
    let host :=
      if fb.hasDrawBuffers then
        { host with drawBuffers := Function.update host.drawBuffers host.bound fb.drawBuffers }
      else host
    ({ host with readBuffer := Function.update host.readBuffer host.bound fb.readBuffer }, { fb with dirty := true })

end

/-! ## What is saved is loaded -/

theorem getBe32_putNat (value : ℕ) (rest : List UInt8) :
    getBe32 (putNat value ++ rest) = (UInt32.ofNat value, rest) := getBe32_putBe32 _ rest

theorem toNat_ofNat {value : ℕ} (h : value < 2 ^ 32) : (UInt32.ofNat value).toNat = value :=
  UInt32.toNat_ofNat_of_lt' h

theorem ofBool_ne_zero (value : Bool) : decide (ofBool value ≠ 0) = value := by
  cases value <;> rfl

/-- What comes back of a point before `postLoad`. -/
def AttachPoint.stored (point : AttachPoint) : AttachPoint := { point with globalName := 0, obj := none }

theorem load_save_points {points : List AttachPoint}
    (hfits : ∀ point ∈ points, point.target < 2 ^ 32 ∧ point.name < 2 ^ 32) (rest : List UInt8) :
    loadPoints points.length (points.flatMap AttachPoint.onSave ++ rest) =
      (points.map fun point ↦ (point.stored, point.objType), rest) := by
  induction points with
  | nil => rfl
  | cons point points ih =>
    obtain ⟨⟨htarget, hname⟩, hrest⟩ := List.forall_mem_cons.mp hfits
    have htype : point.objType < 2 ^ 32 := by
      unfold AttachPoint.objType
      split_ifs <;> decide
    rw [List.length_cons, loadPoints, List.flatMap_cons, AttachPoint.onSave]
    simp only [List.append_assoc, getBe32_putNat, getByte_putByte, ih hrest, toNat_ofNat htarget, toNat_ofNat hname,
      toNat_ofNat htype, ofBool_ne_zero, List.map_cons]
    rfl

theorem load_save_words {words : List ℕ} (hfits : ∀ word ∈ words, word < 2 ^ 32) (rest : List UInt8) :
    loadWords words.length (words.flatMap (fun word ↦ Pipe.putLe32 (UInt32.ofNat word)) ++ rest) = (words, rest) := by
  induction words with
  | nil => rfl
  | cons word words ih =>
    obtain ⟨hword, hrest⟩ := List.forall_mem_cons.mp hfits
    have hsize := Pipe.length_putLe32 (UInt32.ofNat word)
    rw [List.length_cons, loadWords, List.flatMap_cons, List.append_assoc]
    simp only [Stream.read, List.take_left' hsize, List.drop_left' hsize, ih hrest, Pipe.getLe32_putLe32,
      toNat_ofNat hword]

/-- All numbers are those of 32 bits. -/
structure FramebufferData.Fits (fb : FramebufferData) : Prop where
  name : fb.fbName < 2 ^ 32
  points : ∀ idx, (fb.attachPoints idx).target < 2 ^ 32 ∧ (fb.attachPoints idx).name < 2 ^ 32
  drawBuffers : ∀ buf ∈ fb.drawBuffers, buf < 2 ^ 32
  count : fb.drawBuffers.length < 2 ^ 32
  readBuffer : fb.readBuffer < 2 ^ 32

/-- What comes back of a framebuffer. -/
structure Comes (fb : FramebufferData) (loaded : LoadedFramebuffer) : Prop where
  name : loaded.data.fbName = fb.fbName
  globalName : loaded.data.fbGlobalName = 0
  points : ∀ idx ≤ MAX_ATTACH_POINTS, loaded.data.attachPoints idx = (fb.attachPoints idx).stored ∧
    loaded.objType idx = (fb.attachPoints idx).objType
  dirty : loaded.data.dirty = fb.dirty
  hasBeenBound : loaded.data.hasBeenBound = fb.hasBeenBound
  hasDrawBuffers : loaded.data.hasDrawBuffers = fb.hasDrawBuffers
  drawBuffers : loaded.data.drawBuffers = fb.drawBuffers
  readBuffer : loaded.data.readBuffer = fb.readBuffer

/-- The fields are read one after the other. -/
theorem load_eq {stream s₁ s₂ s₃ s₄ s₅ s₆ s₇ s₈ s₉ rest : List UInt8}
    {dataType fbName number count readBuffer : UInt32}
    {points : List (AttachPoint × ℕ)} {dirty hasBeenBound hasDrawBuffers : UInt8} {drawBuffers : List ℕ}
    (hdataType : getBe32 stream = (dataType, s₁)) (hfbName : getBe32 s₁ = (fbName, s₂))
    (hnumber : getBe32 s₂ = (number, s₃)) (hpoints : loadPoints (MAX_ATTACH_POINTS + 1) s₃ = (points, s₄))
    (hdirty : getByte s₄ = (dirty, s₅)) (hbound : getByte s₅ = (hasBeenBound, s₆))
    (hdraw : getByte s₆ = (hasDrawBuffers, s₇)) (hcount : getBe32 s₇ = (count, s₈))
    (hwords : loadWords count.toNat s₈ = (drawBuffers, s₉)) (hread : getBe32 s₉ = (readBuffer, rest)) :
    FramebufferData.load stream =
      (⟨⟨fbName.toNat, 0, fun idx ↦ (points.getD idx (.empty, NULLTYPE)).1, dirty ≠ 0, hasBeenBound ≠ 0,
        hasDrawBuffers ≠ 0, drawBuffers, readBuffer.toNat⟩, fun idx ↦ (points.getD idx (.empty, NULLTYPE)).2⟩,
        rest) := by
  simp only [FramebufferData.load, hdataType, hfbName, hnumber, hpoints, hdirty, hbound, hdraw, hcount, hwords, hread]

theorem FramebufferData.Fits.load_onSave {fb : FramebufferData} (h : fb.Fits) (rest : List UInt8) :
    ∃ loaded, FramebufferData.load (fb.onSave ++ rest) = (loaded, rest) ∧ Comes fb loaded := by
  have hfits : ∀ point ∈ (List.range (MAX_ATTACH_POINTS + 1)).map fb.attachPoints,
      point.target < 2 ^ 32 ∧ point.name < 2 ^ 32 := by
    intro point hpoint
    obtain ⟨idx, _, rfl⟩ := List.mem_map.mp hpoint
    exact h.points idx
  have hpoints (more : List UInt8) := load_save_points hfits more
  rw [List.length_map, List.length_range] at hpoints
  simp only [List.flatMap_map, List.map_map] at hpoints
  have hwords (more : List UInt8) := load_save_words h.drawBuffers more
  rw [← toNat_ofNat h.count] at hwords
  have hload := load_eq (getBe32_putNat FRAMEBUFFER_DATA _) (getBe32_putNat fb.fbName _)
    (getBe32_putNat MAX_ATTACH_POINTS _) (hpoints _) (getByte_putByte (ofBool fb.dirty) _)
    (getByte_putByte (ofBool fb.hasBeenBound) _) (getByte_putByte (ofBool fb.hasDrawBuffers) _)
    (getBe32_putNat fb.drawBuffers.length _) (hwords _) (getBe32_putNat fb.readBuffer rest)
  simp only [← List.append_assoc] at hload
  have htable (idx : ℕ) (hidx : idx ≤ MAX_ATTACH_POINTS) :
      ((List.range (MAX_ATTACH_POINTS + 1)).map
          ((fun point ↦ (point.stored, point.objType)) ∘ fb.attachPoints)).getD idx (.empty, NULLTYPE) =
        ((fb.attachPoints idx).stored, (fb.attachPoints idx).objType) := by
    have hlt : idx < ((List.range (MAX_ATTACH_POINTS + 1)).map
        ((fun point ↦ (point.stored, point.objType)) ∘ fb.attachPoints)).length := by
      rw [List.length_map, List.length_range]
      exact Nat.lt_succ_of_le hidx
    rw [List.getD_eq_getElem _ _ hlt, List.getElem_map, List.getElem_range]
    rfl
  unfold FramebufferData.onSave
  simp only [← List.append_assoc]
  rw [hload]
  refine ⟨_, rfl, toNat_ofNat h.name, rfl, fun idx hidx ↦ ?_, ofBool_ne_zero fb.dirty, ofBool_ne_zero fb.hasBeenBound,
    ofBool_ne_zero fb.hasDrawBuffers, rfl, toNat_ofNat h.readBuffer⟩
  simp only [htable idx hidx, and_self]

/-- The table after `postLoad`: only the global names are missing, and the objects are new ones. -/
theorem Comes.postLoad {fb : FramebufferData} {loaded : LoadedFramebuffer} (h : Comes fb loaded)
    (getObjDataPtr : ℕ → ℕ → Option ℕ) (made : ℕ → ℕ) {idx : ℕ} (hidx : idx ≤ MAX_ATTACH_POINTS) :
    ∃ obj : Option ℕ, obj.isSome = (fb.attachPoints idx).obj.isSome ∧
      (loaded.postLoad getObjDataPtr made).attachPoints idx =
        ⟨(fb.attachPoints idx).target, (fb.attachPoints idx).name, 0, obj, (fb.attachPoints idx).owned⟩ := by
  obtain ⟨hpoint, htype⟩ := h.points idx hidx
  have hobj : ((loaded.postLoad getObjDataPtr made).attachPoints idx).obj.isSome =
      (fb.attachPoints idx).obj.isSome := by
    unfold LoadedFramebuffer.postLoad
    dsimp only
    rw [htype, AttachPoint.objType]
    cases (fb.attachPoints idx).obj.isSome <;> rfl
  refine ⟨_, hobj, ?_⟩
  unfold LoadedFramebuffer.postLoad
  dsimp only
  rw [hpoint]
  rfl

/-! ## What is restored -/

section

variable {takes2D : ℕ → Bool} {getGlobalName : NamedObjectType → ℕ → ℕ}

theorem Host.attached_attach (host : Host) (attachment : ℕ) (contents : Option HostAttachment) (point : ℕ) :
    (host.attach attachment contents).attached host.bound point =
      if point ∈ hostPoints attachment then contents else host.attached host.bound point := by
  simp only [Host.attach, Function.update_self]

/-- What a point has the host attach. -/
def AttachPoint.onHost (getGlobalName : NamedObjectType → ℕ → ℕ) (point : AttachPoint) : Option HostAttachment :=
  if point.name = 0 ∨ point.owned then none
  else if point.obj.isSome then some (.renderbuffer (getGlobalName .renderbuffer point.name))
  else some (.texture point.target (getGlobalName .texture point.name))

/-- What the host attaches of it. -/
def AttachPoint.accepted (takes2D : ℕ → Bool) (getGlobalName : NamedObjectType → ℕ → ℕ) (point : AttachPoint) :
    Option HostAttachment :=
  match point.onHost getGlobalName with
  | some (.texture target name) => if takes2D target then some (.texture target name) else none
  | other => other

/-- What a point is after it has been restored. -/
def AttachPoint.restored (getGlobalName : NamedObjectType → ℕ → ℕ) (point : AttachPoint) : AttachPoint :=
  if point.name = 0 then point
  else if point.owned then { point with name := 0 }
  else { point with
    globalName := getGlobalName (if point.obj.isSome then .renderbuffer else .texture) point.name }

section

variable (hnames : ∀ type name, name ≠ 0 → getGlobalName type name ≠ 0)
include hnames

theorem restorePoint_eq (idx : ℕ) (host : Host) (fb : FramebufferData) :
    restorePoint takes2D getGlobalName idx host fb = ((match (fb.attachPoints idx).accepted takes2D getGlobalName with
        | none => host
        | some contents => host.attach (index2Attachment idx) (some contents)),
        { fb with
          attachPoints := Function.update fb.attachPoints idx ((fb.attachPoints idx).restored getGlobalName) }) := by
  unfold restorePoint AttachPoint.restored AttachPoint.accepted
  dsimp only
  by_cases hname : (fb.attachPoints idx).name = 0
  · have hnone : (fb.attachPoints idx).onHost getGlobalName = none := if_pos (Or.inl hname)
    rw [if_pos hname, if_pos hname, hnone, Function.update_eq_self]
  rw [if_neg hname, if_neg hname]
  by_cases howned : (fb.attachPoints idx).owned = true
  · have hnone : (fb.attachPoints idx).onHost getGlobalName = none := if_pos (Or.inr howned)
    rw [if_pos howned, if_pos howned, hnone]
  rw [if_neg howned, if_neg howned, AttachPoint.onHost, if_neg (not_or.mpr ⟨hname, howned⟩)]
  split_ifs with hobj
  · rw [Host.glFramebufferRenderbuffer, if_neg (hnames .renderbuffer _ hname)]
  · rw [Host.glFramebufferTexture2D, if_neg (hnames .texture _ hname)]
    dsimp only
    split_ifs <;> rfl

/-- The framebuffer after the turns of the loop. -/
theorem restorePoints_framebuffer (n : ℕ) (host : Host) (fb : FramebufferData) :
    (restorePoints takes2D getGlobalName n host fb).2 = { fb with
        attachPoints := fun idx ↦
          if idx < n then (fb.attachPoints idx).restored getGlobalName else fb.attachPoints idx } := by
  induction n with
  | zero => rfl
  | succ n ih =>
    rw [restorePoints]
    dsimp only
    rw [restorePoint_eq hnames, ih]
    dsimp only
    congr 1
    funext idx
    rw [Function.update_apply, if_neg (Nat.lt_irrefl n)]
    by_cases heq : idx = n
    · rw [if_pos heq, heq, if_pos (Nat.lt_succ_self n)]
    · have hiff : idx < n + 1 ↔ idx < n := by omega
      rw [if_neg heq]
      simp only [hiff]

end

variable (takes2D) in
/-- What the host has attached at a point after the turns of the loop. -/
theorem restorePoints_host (hnames : ∀ type name, name ≠ 0 → getGlobalName type name ≠ 0) (n : ℕ) (host : Host)
    (fb : FramebufferData) (point : ℕ) :
    (restorePoints takes2D getGlobalName n host fb).1.bound = host.bound ∧
      ((∀ idx < n, point ∈ hostPoints (index2Attachment idx) →
          (fb.attachPoints idx).accepted takes2D getGlobalName = none) →
        (restorePoints takes2D getGlobalName n host fb).1.attached host.bound point =
          host.attached host.bound point) ∧
      ∀ idx < n, ∀ contents, point ∈ hostPoints (index2Attachment idx) →
        (fb.attachPoints idx).accepted takes2D getGlobalName = some contents →
        (∀ other < n, other ≠ idx → point ∈ hostPoints (index2Attachment other) →
          (fb.attachPoints other).accepted takes2D getGlobalName = none) →
        (restorePoints takes2D getGlobalName n host fb).1.attached host.bound point = some contents := by
  induction n with
  | zero => exact ⟨rfl, fun _ ↦ rfl, fun idx hidx ↦ absurd hidx (Nat.not_lt_zero idx)⟩
  | succ n ih =>
    obtain ⟨hbound, huntouched, hset⟩ := ih
    have hpoint : (restorePoints takes2D getGlobalName n host fb).2.attachPoints n = fb.attachPoints n := by
      rw [restorePoints_framebuffer hnames]
      exact if_neg (Nat.lt_irrefl n)
    have hlast : (restorePoints takes2D getGlobalName (n + 1) host fb).1 =
        match (fb.attachPoints n).accepted takes2D getGlobalName with
        | none => (restorePoints takes2D getGlobalName n host fb).1
        | some contents =>
          (restorePoints takes2D getGlobalName n host fb).1.attach (index2Attachment n) (some contents) := by
      rw [restorePoints]
      dsimp only
      rw [restorePoint_eq hnames, hpoint]
    cases haccepted : (fb.attachPoints n).accepted takes2D getGlobalName with
    | none =>
      rw [haccepted] at hlast
      rw [hlast]
      refine ⟨hbound, fun hnone ↦ huntouched fun idx hidx ↦ hnone idx (Nat.lt_succ_of_lt hidx), ?_⟩
      intro idx hidx contents hmem hcontents hothers
      have hless : idx < n := by
        refine Nat.lt_of_le_of_ne (Nat.le_of_lt_succ hidx) ?_
        rintro rfl
        rw [haccepted] at hcontents
        cases hcontents
      exact hset idx hless contents hmem hcontents fun other hother ↦ hothers other (Nat.lt_succ_of_lt hother)
    | some last =>
      rw [haccepted] at hlast
      dsimp only at hlast
      have hattached : (restorePoints takes2D getGlobalName (n + 1) host fb).1.attached host.bound point =
          if point ∈ hostPoints (index2Attachment n) then some last
          else (restorePoints takes2D getGlobalName n host fb).1.attached host.bound point := by
        rw [hlast, ← hbound]
        exact Host.attached_attach _ _ _ _
      rw [hattached]
      refine ⟨hlast ▸ hbound, fun hnone ↦ ?_, fun idx hidx contents hmem hcontents hothers ↦ ?_⟩
      · have hnot : point ∉ hostPoints (index2Attachment n) := fun hmem ↦ by
          have hgone := hnone n (Nat.lt_succ_self n) hmem
          rw [haccepted] at hgone
          cases hgone
        rw [if_neg hnot]
        exact huntouched fun idx hidx ↦ hnone idx (Nat.lt_succ_of_lt hidx)
      · obtain hless | rfl := Nat.lt_succ_iff_lt_or_eq.mp hidx
        · have hnot : point ∉ hostPoints (index2Attachment n) := fun hmem' ↦ by
            have hgone := hothers n (Nat.lt_succ_self n) hless.ne' hmem'
            rw [haccepted] at hgone
            cases hgone
          rw [if_neg hnot]
          exact hset idx hless contents hmem hcontents fun other hother ↦ hothers other (Nat.lt_succ_of_lt hother)
        · rw [if_pos hmem, ← hcontents, haccepted]

end

/-! ## Framebuffers that are saved -/

/-- What is called for a framebuffer. `host` is what the host has attached then. -/
inductive FramebufferCall where
  | bind
  | setAttachment (attachment target name : ℕ) (obj : Option ℕ) (globalName : ℕ)
  | validate (host : Host) (tex globalName : ℕ)
  | setDrawBuffers (bufs : List ℕ)
  | setReadBuffers (src : ℕ)

/-- Callers have bound the framebuffer and pass numbers of 32 bits. A renderbuffer comes with its object, and
nothing else does. -/
def framebufferCall (takes2D : ℕ → Bool) :
    FramebufferCall → Objects × FramebufferData → Option (Objects × FramebufferData)
  | .bind, (objects, fb) => some (objects, { fb with hasBeenBound := true })
  | .setAttachment attachment target name obj globalName, (objects, fb) =>
    if fb.hasBeenBound ∧ framebufferAttachment attachment ∧ target < 2 ^ 32 ∧ name < 2 ^ 32 ∧
        (name ≠ 0 → (obj.isSome ↔ target = GL_RENDERBUFFER)) then
      some (setAttachment attachment target name obj false globalName objects fb)
    else none
  | .validate host tex globalName, (objects, fb) =>
    if fb.hasBeenBound ∧ tex < 2 ^ 32 then
      let (objects, _, fb) := validate takes2D tex globalName objects host fb
      some (objects, fb)
    else none
  | .setDrawBuffers bufs, (objects, fb) =>
    if fb.hasBeenBound ∧ bufs.length < 2 ^ 31 ∧ ∀ buf ∈ bufs, buf < 2 ^ 32 then
      some (objects, { fb with drawBuffers := bufs, hasDrawBuffers := true })
    else none
  | .setReadBuffers src, (objects, fb) =>
    if fb.hasBeenBound ∧ src < 2 ^ 32 then some (objects, { fb with readBuffer := src }) else none

/-- What an attachment leaves of a framebuffer. -/
theorem setAttachment_framebuffer (attachment target name : ℕ) (obj : Option ℕ) (takeOwnership : Bool)
    (globalName : ℕ) (objects : Objects) (fb : FramebufferData) :
    ∃ point dirty, (setAttachment attachment target name obj takeOwnership globalName objects fb).2 =
          { fb with attachPoints := Function.update fb.attachPoints (attachmentPointIndex attachment) point, dirty } ∧
        (point = .empty ∨ point = ⟨target, name, globalName, obj, takeOwnership⟩ ∨
          point = fb.attachPoints (attachmentPointIndex attachment)) ∧ (fb.dirty = true → dirty = true) := by
  unfold setAttachment
  dsimp only
  split_ifs
  · exact ⟨.empty, fb.dirty, rfl, Or.inl rfl, id⟩
  · refine ⟨⟨target, name, globalName, obj, takeOwnership⟩, true, ?_, Or.inr (Or.inl rfl), fun _ ↦ rfl⟩
    simp only [detachObject, Function.update_idem]
  · refine ⟨⟨target, name, globalName, obj, takeOwnership⟩, true, ?_, Or.inr (Or.inl rfl), fun _ ↦ rfl⟩
    simp only [detachObject, Function.update_idem]
  · exact ⟨_, fb.dirty, by rw [Function.update_eq_self], Or.inr (Or.inr rfl), id⟩

section

variable (attachment target : ℕ) {texture : ℕ} (obj : Option ℕ) (takeOwnership : Bool) (globalName : ℕ)
  (objects : Objects) {fb : FramebufferData}

theorem setAttachment_fits (h : fb.Fits) (htarget : target < 2 ^ 32) (htexture : texture < 2 ^ 32) :
    (setAttachment attachment target texture obj takeOwnership globalName objects fb).2.Fits := by
  obtain ⟨point, dirty, hlast, hpoint, _⟩ :=
    setAttachment_framebuffer attachment target texture obj takeOwnership globalName objects fb
  rw [hlast]
  refine ⟨h.name, fun idx ↦ ?_, h.drawBuffers, h.count, h.readBuffer⟩
  dsimp only
  rw [Function.update_apply]
  split_ifs
  · obtain rfl | rfl | rfl := hpoint
    · exact ⟨Nat.two_pow_pos 32, Nat.two_pow_pos 32⟩
    · exact ⟨htarget, htexture⟩
    · exact h.points _
  · exact h.points idx

/-- The invariant. -/
structure FramebufferData.Tidy (name : ℕ) (fb : FramebufferData) : Prop where
  fbName : fb.fbName = name
  fits : fb.Fits
  unbound : fb.hasBeenBound = false → ∀ idx, fb.attachPoints idx = .empty

theorem tidy_setAttachment {name : ℕ} (h : fb.Tidy name) (hbound : fb.hasBeenBound = true) (htarget : target < 2 ^ 32)
    (htexture : texture < 2 ^ 32) :
    (setAttachment attachment target texture obj takeOwnership globalName objects fb).2.Tidy name := by
  have hfits := setAttachment_fits attachment target obj takeOwnership globalName objects h.fits htarget htexture
  obtain ⟨point, dirty, hlast, _⟩ :=
    setAttachment_framebuffer attachment target texture obj takeOwnership globalName objects fb
  rw [hlast] at hfits ⊢
  exact ⟨h.fbName, hfits, fun hfalse ↦ (Bool.false_ne_true (hfalse.symm.trans hbound)).elim⟩

theorem tidy_validate {takes2D : ℕ → Bool} {name tex : ℕ} (host : Host) (h : fb.Tidy name)
    (hbound : fb.hasBeenBound = true) (htex : tex < 2 ^ 32) :
    (validate takes2D tex globalName objects host fb).2.2.Tidy name := by
  have htarget : GL_TEXTURE_2D < 2 ^ 32 := by decide
  have hnew :=
    tidy_setAttachment GL_COLOR_ATTACHMENT0 GL_TEXTURE_2D none true globalName objects h hbound htarget htex
  have hclean {fb : FramebufferData} (h : fb.Tidy name) : FramebufferData.Tidy name { fb with dirty := false } :=
    ⟨h.fbName, ⟨h.fits.name, h.fits.points, h.fits.drawBuffers, h.fits.count, h.fits.readBuffer⟩, h.unbound⟩
  unfold validate
  dsimp only
  split_ifs
  · exact h
  · exact hclean hnew
  · exact hnew
  · exact hclean h
  · exact h

end

theorem tidy_call {took2D : ℕ → Bool} {name : ℕ} (call : FramebufferCall) (state after : Objects × FramebufferData)
    (h : state.2.Tidy name) (hcall : framebufferCall took2D call state = some after) : after.2.Tidy name := by
  obtain ⟨objects, fb⟩ := state
  cases call with
  | bind =>
    cases hcall
    exact ⟨h.fbName, ⟨h.fits.name, h.fits.points, h.fits.drawBuffers, h.fits.count, h.fits.readBuffer⟩,
      fun hbound ↦ (Bool.false_ne_true hbound.symm).elim⟩
  | setAttachment attachment target texture obj globalName =>
    obtain ⟨⟨hbound, _, htarget, htexture, _⟩, hsome⟩ := Option.ite_none_right_eq_some.mp hcall
    rw [← Option.some.inj hsome]
    exact tidy_setAttachment _ _ _ _ _ _ h hbound htarget htexture
  | validate host tex globalName =>
    obtain ⟨⟨hbound, htex⟩, hsome⟩ := Option.ite_none_right_eq_some.mp hcall
    rw [← Option.some.inj hsome]
    exact tidy_validate _ _ _ h hbound htex
  | setDrawBuffers bufs =>
    obtain ⟨⟨hbound, hcount, hbufs⟩, hsome⟩ := Option.ite_none_right_eq_some.mp hcall
    cases hsome
    exact ⟨h.fbName, ⟨h.fits.name, h.fits.points, hbufs, Nat.lt_trans hcount (by decide), h.fits.readBuffer⟩,
      h.unbound⟩
  | setReadBuffers src =>
    obtain ⟨⟨hbound, hsrc⟩, hsome⟩ := Option.ite_none_right_eq_some.mp hcall
    cases hsome
    exact ⟨h.fbName, ⟨h.fits.name, h.fits.points, h.fits.drawBuffers, h.fits.count, hsrc⟩, h.unbound⟩

/-! ## The first use after a load -/

/-- Loading a framebuffer and making it on the host. -/
def reload (takes2D : ℕ → Bool) (getGlobalName : NamedObjectType → ℕ → ℕ) (getObjDataPtr : ℕ → ℕ → Option ℕ)
    (made : ℕ → ℕ) (host : Host) (stream : List UInt8) : Host × FramebufferData :=
  let (loaded, _) := FramebufferData.load stream
  let fb := loaded.postLoad getObjDataPtr made
  restore takes2D getGlobalName fb.fbName host fb

/-- The framebuffer and its host are as they were, and stay so when it is validated. -/
structure Restored (takes2D : ℕ → Bool) (getGlobalName : NamedObjectType → ℕ → ℕ) (fb : FramebufferData) (host : Host)
    (fb' : FramebufferData) : Prop where
  dropped : ∀ idx < MAX_ATTACH_POINTS, (fb.attachPoints idx).owned = true → (fb'.attachPoints idx).name = 0
  table : ∀ idx < MAX_ATTACH_POINTS, (fb.attachPoints idx).owned = false →
    (fb'.attachPoints idx).target = (fb.attachPoints idx).target ∧
      (fb'.attachPoints idx).name = (fb.attachPoints idx).name ∧
      ((fb.attachPoints idx).name ≠ 0 → (fb'.attachPoints idx).globalName =
        getGlobalName (if (fb.attachPoints idx).obj.isSome then .renderbuffer else .texture)
          (fb.attachPoints idx).name)
  present : ∀ idx < MAX_ATTACH_POINTS, ∀ contents, (fb.attachPoints idx).onHost getGlobalName = some contents →
    ∀ point ∈ hostPoints (index2Attachment idx),
      host.attached (getGlobalName .framebuffer fb.fbName) point = some contents
  only : ∀ point contents, host.attached (getGlobalName .framebuffer fb.fbName) point = some contents →
    ∃ idx < MAX_ATTACH_POINTS, point ∈ hostPoints (index2Attachment idx) ∧
      (fb.attachPoints idx).onHost getGlobalName = some contents
  validated : ∀ tex globalName objects,
    (validate takes2D tex globalName objects
        (host.glBindFramebuffer (getGlobalName .framebuffer fb.fbName)) fb').2.1.bound =
      getGlobalName .framebuffer fb.fbName

/-- All that is attached is attached at the color attachments but the first one. -/
def FramebufferData.Intact (takes2D : ℕ → Bool) (fb : FramebufferData) : Prop :=
  ∀ idx < MAX_ATTACH_POINTS, (fb.attachPoints idx).name ≠ 0 → (fb.attachPoints idx).owned = false →
    4 ≤ idx ∧ ((fb.attachPoints idx).obj.isSome = false → takes2D (fb.attachPoints idx).target = true)

section

variable (takes2D : ℕ → Bool) (objects : Objects) (host : Host) {fb : FramebufferData}

theorem validate_eq (tex globalName : ℕ) (hcolor : (fb.attachPoints 0).name = 0)
    (hdepth : host.attached host.bound GL_DEPTH_ATTACHMENT = none)
    (hstencil : host.attached host.bound GL_STENCIL_ATTACHMENT = none) :
    validate takes2D tex globalName objects host fb = (objects, host, fb) := if_pos ⟨hcolor, hdepth, hstencil⟩

/-- A framebuffer that is dirty is bound again. -/
theorem bound_validate (tex globalName : ℕ) (hdirty : fb.dirty = true)
    (hneeds : (fb.attachPoints 0).name ≠ 0 ∨ host.attached host.bound GL_DEPTH_ATTACHMENT ≠ none ∨
      host.attached host.bound GL_STENCIL_ATTACHMENT ≠ none) :
    (validate takes2D tex globalName objects host fb).2.1.bound = fb.fbGlobalName := by
  obtain ⟨point, dirty, hlast, _, hstays⟩ :=
    setAttachment_framebuffer GL_COLOR_ATTACHMENT0 GL_TEXTURE_2D tex none true globalName objects fb
  have hafter :
      (setAttachment GL_COLOR_ATTACHMENT0 GL_TEXTURE_2D tex none true globalName objects fb).2.dirty = true ∧
      (setAttachment GL_COLOR_ATTACHMENT0 GL_TEXTURE_2D tex none true globalName objects fb).2.fbGlobalName =
        fb.fbGlobalName := by
    rw [hlast]
    exact ⟨hstays hdirty, rfl⟩
  have hcolor : attachmentPointIndex GL_COLOR_ATTACHMENT0 = 0 := rfl
  unfold validate
  dsimp only
  rw [hcolor, if_neg (by tauto)]
  split_ifs with hzero hlater
  · exact hafter.2
  · exact absurd hafter.1 hlater
  · rfl

end

/-- A framebuffer that has been loaded, before it is restored. -/
structure Reloads (fb fb' : FramebufferData) : Prop where
  name : fb'.fbName = fb.fbName
  globalName : fb'.fbGlobalName = 0
  hasBeenBound : fb'.hasBeenBound = fb.hasBeenBound
  points : ∀ idx < MAX_ATTACH_POINTS, ∃ obj : Option ℕ, obj.isSome = (fb.attachPoints idx).obj.isSome ∧
    fb'.attachPoints idx =
      ⟨(fb.attachPoints idx).target, (fb.attachPoints idx).name, 0, obj, (fb.attachPoints idx).owned⟩

theorem FramebufferData.Fits.reloads {fb : FramebufferData} (h : fb.Fits) (takes2D : ℕ → Bool)
    (getGlobalName : NamedObjectType → ℕ → ℕ) (getObjDataPtr : ℕ → ℕ → Option ℕ) (made : ℕ → ℕ) (host : Host)
    (rest : List UInt8) :
    ∃ fb', Reloads fb fb' ∧ reload takes2D getGlobalName getObjDataPtr made host (fb.onSave ++ rest) =
      restore takes2D getGlobalName fb.fbName host fb' := by
  obtain ⟨loaded, hload, hcomes⟩ := h.load_onSave rest
  refine ⟨loaded.postLoad getObjDataPtr made,
    ⟨hcomes.name, hcomes.globalName, hcomes.hasBeenBound, fun idx hidx ↦ ?_⟩, ?_⟩
  · exact hcomes.postLoad getObjDataPtr made (Nat.le_of_lt hidx)
  · unfold reload
    rw [hload]
    dsimp only
    have hname : (loaded.postLoad getObjDataPtr made).fbName = fb.fbName := hcomes.name
    rw [hname]

section

variable {takes2D : ℕ → Bool} {getGlobalName : NamedObjectType → ℕ → ℕ}

variable {fb : FramebufferData}

section

variable {fb' : FramebufferData} (h : Reloads fb fb') {idx : ℕ} (hidx : idx < MAX_ATTACH_POINTS)
include h hidx

theorem Reloads.onHost :
    (fb'.attachPoints idx).onHost getGlobalName = (fb.attachPoints idx).onHost getGlobalName := by
  obtain ⟨obj, hobj, hpoint⟩ := h.points idx hidx
  rw [hpoint, AttachPoint.onHost, AttachPoint.onHost]
  dsimp only
  rw [hobj]

theorem Reloads.accepted :
    (fb'.attachPoints idx).accepted takes2D getGlobalName = (fb.attachPoints idx).accepted takes2D getGlobalName := by
  rw [AttachPoint.accepted, AttachPoint.accepted, h.onHost hidx]

end

variable (takes2D) in
/-- What `restore` does to a framebuffer that has been bound. -/
theorem restore_spec (hnames : ∀ type name, name ≠ 0 → getGlobalName type name ≠ 0) (localName : ℕ)
    (host : Host) (hbound : fb.hasBeenBound = true) :
    (restore takes2D getGlobalName localName host fb).2 = { fb with
          attachPoints := fun idx ↦
            if idx < MAX_ATTACH_POINTS then (fb.attachPoints idx).restored getGlobalName else fb.attachPoints idx
          dirty := true } ∧
      ∀ point,
        ((∀ idx < MAX_ATTACH_POINTS, point ∈ hostPoints (index2Attachment idx) →
            (fb.attachPoints idx).accepted takes2D getGlobalName = none) →
          (restore takes2D getGlobalName localName host fb).1.attached (getGlobalName .framebuffer localName) point =
            host.attached (getGlobalName .framebuffer localName) point) ∧
        ∀ idx < MAX_ATTACH_POINTS, ∀ contents, point ∈ hostPoints (index2Attachment idx) →
          (fb.attachPoints idx).accepted takes2D getGlobalName = some contents →
          (∀ other < MAX_ATTACH_POINTS, other ≠ idx → point ∈ hostPoints (index2Attachment other) →
            (fb.attachPoints other).accepted takes2D getGlobalName = none) →
          (restore takes2D getGlobalName localName host fb).1.attached (getGlobalName .framebuffer localName) point =
            some contents := by
  have hnot : ¬(!fb.hasBeenBound) = true := by
    rw [hbound]
    exact Bool.false_ne_true
  unfold restore
  rw [if_neg hnot]
  generalize MAX_ATTACH_POINTS = n
  dsimp only
  have hframebuffer : (restorePoints takes2D getGlobalName n
      (host.glBindFramebuffer (getGlobalName .framebuffer localName)) fb).2 = _ :=
    restorePoints_framebuffer hnames n _ fb
  have hhost (point : ℕ) := (restorePoints_host takes2D hnames n
    (host.glBindFramebuffer (getGlobalName .framebuffer localName)) fb point).2
  rw [hframebuffer]
  dsimp only
  split_ifs <;> exact ⟨rfl, hhost⟩

end

/-! ### The points of the host -/

theorem index2Attachment_inj : ∀ idx < MAX_ATTACH_POINTS, 4 ≤ idx → ∀ other < MAX_ATTACH_POINTS,
    index2Attachment idx ∈ hostPoints (index2Attachment other) → other = idx := by
  decide

theorem index2Attachment_color : ∀ idx < MAX_ATTACH_POINTS, 4 ≤ idx →
    GL_DEPTH_ATTACHMENT ∉ hostPoints (index2Attachment idx) ∧
      GL_STENCIL_ATTACHMENT ∉ hostPoints (index2Attachment idx) ∧
      hostPoints (index2Attachment idx) = [index2Attachment idx] := by
  decide

section

variable {takes2D : ℕ → Bool} {getGlobalName : NamedObjectType → ℕ → ℕ}

variable {fb fb' : FramebufferData}

theorem AttachPoint.onHost_eq_none_iff {point : AttachPoint} :
    point.onHost getGlobalName = none ↔ point.name = 0 ∨ point.owned = true := by
  unfold AttachPoint.onHost
  split_ifs with hnone
  · exact iff_of_true rfl hnone
  · exact iff_of_false id hnone
  · exact iff_of_false id hnone

theorem FramebufferData.Intact.color (h : fb.Intact takes2D) {idx : ℕ} (hidx : idx < MAX_ATTACH_POINTS)
    {contents : HostAttachment} (honHost : (fb.attachPoints idx).onHost getGlobalName = some contents) :
    4 ≤ idx ∧ (fb.attachPoints idx).accepted takes2D getGlobalName = some contents := by
  have hnot : ¬((fb.attachPoints idx).name = 0 ∨ (fb.attachPoints idx).owned = true) := fun hnone ↦ by
    rw [AttachPoint.onHost_eq_none_iff.mpr hnone] at honHost
    cases honHost
  obtain ⟨hname, howned⟩ := not_or.mp hnot
  obtain ⟨hcolor, htakes⟩ := h idx hidx hname (Bool.eq_false_iff.mpr howned)
  refine ⟨hcolor, ?_⟩
  rw [AttachPoint.onHost, if_neg hnot] at honHost
  rw [AttachPoint.accepted, AttachPoint.onHost, if_neg hnot]
  split_ifs at honHost ⊢ with hobj
  · exact honHost
  · dsimp only
    rw [if_pos (htakes (Bool.eq_false_iff.mpr hobj))]
    exact honHost

/-- What is attached at a color attachment but the first one. -/
theorem restore_color (hnames : ∀ type name, name ≠ 0 → getGlobalName type name ≠ 0) (name : ℕ) (host : Host)
    (hbound : fb.hasBeenBound = true) {idx : ℕ} (hidx : idx < MAX_ATTACH_POINTS) (hcolor : 4 ≤ idx) :
    (restore takes2D getGlobalName name host fb).1.attached (getGlobalName .framebuffer name) (index2Attachment idx) =
      ((fb.attachPoints idx).accepted takes2D getGlobalName).or
        (host.attached (getGlobalName .framebuffer name) (index2Attachment idx)) := by
  obtain ⟨_, hpoints⟩ := restore_spec takes2D hnames name host hbound
  obtain ⟨huntouched, hset⟩ := hpoints (index2Attachment idx)
  have hself : index2Attachment idx ∈ hostPoints (index2Attachment idx) := by
    rw [(index2Attachment_color idx hidx hcolor).2.2]
    exact List.mem_singleton_self _
  cases haccepted : (fb.attachPoints idx).accepted takes2D getGlobalName with
  | none =>
    rw [Option.none_or]
    refine huntouched fun other hother hmem ↦ ?_
    rw [index2Attachment_inj idx hidx hcolor other hother hmem]
    exact haccepted
  | some contents =>
    rw [Option.some_or]
    refine hset idx hidx contents hself haccepted fun other hother hne hmem ↦ ?_
    exact absurd (index2Attachment_inj idx hidx hcolor other hother hmem) hne

theorem Reloads.validate_bound {name : ℕ} {host : Host} {tex globalName : ℕ} {objects : Objects}
    (h : Reloads fb fb') (hnames : ∀ type name, name ≠ 0 → getGlobalName type name ≠ 0)
    (hbound : fb.hasBeenBound = true) (bound : ℕ)
    (hneeds : (fb.attachPoints 0).name ≠ 0 ∧ (fb.attachPoints 0).owned = false ∨ (restore takes2D getGlobalName name host fb').1.attached bound GL_DEPTH_ATTACHMENT ≠ none ∨ (restore takes2D getGlobalName name host fb').1.attached bound GL_STENCIL_ATTACHMENT ≠ none) :
    (validate takes2D tex globalName objects ((restore takes2D getGlobalName name host fb').1.glBindFramebuffer bound)
      (restore takes2D getGlobalName name host fb').2).2.1.bound = 0 := by
  obtain ⟨hframebuffer, _⟩ := restore_spec takes2D hnames name host (h.hasBeenBound.trans hbound)
  obtain ⟨obj, _, hpoint⟩ := h.points 0 (by decide)
  have hdirty : (restore takes2D getGlobalName name host fb').2.dirty = true := by rw [hframebuffer]
  have hglobal : (restore takes2D getGlobalName name host fb').2.fbGlobalName = 0 := by
    rw [hframebuffer]
    exact h.globalName
  rw [← hglobal]
  refine bound_validate takes2D objects ((restore takes2D getGlobalName name host fb').1.glBindFramebuffer bound) tex
    globalName hdirty ?_
  obtain ⟨hname, howned⟩ | hdepth | hstencil := hneeds
  · left
    rw [hframebuffer]
    dsimp only
    rw [if_pos (by decide), hpoint, AttachPoint.restored, if_neg hname, if_neg (Bool.eq_false_iff.mp howned)]
    exact hname
  · exact Or.inr (Or.inl hdepth)
  · exact Or.inr (Or.inr hstencil)

theorem Restored.intact {host : Host} (hunbound : fb.hasBeenBound = false → ∀ idx, fb.attachPoints idx = .empty)
    (hnames : ∀ type name, name ≠ 0 → getGlobalName type name ≠ 0) (hname : fb.fbName ≠ 0)
    (hhost : ∀ point, host.attached (getGlobalName .framebuffer fb.fbName) point = none)
    (hloaded : Reloads fb fb')
    (h : Restored takes2D getGlobalName fb (restore takes2D getGlobalName fb.fbName host fb').1 (restore takes2D getGlobalName fb.fbName host fb').2) :
    fb.Intact takes2D := by
  intro idx hidx hpoint howned
  have hbound : fb.hasBeenBound = true := by
    by_contra hnot
    rw [hunbound (Bool.eq_false_iff.mpr hnot)] at hpoint
    exact hpoint rfl
  have hvalidated := h.validated 0 0 ⟨fun _ ↦ ⟨0, 0⟩, []⟩
  have hpresent := h.present idx hidx
  have hwrong (hneeds : _) : False :=
    hnames .framebuffer fb.fbName hname (hvalidated.symm.trans (hloaded.validate_bound hnames hbound _ hneeds))
  have honHost : (fb.attachPoints idx).onHost getGlobalName ≠ none := fun hnone ↦ by
    obtain hzero | hown := AttachPoint.onHost_eq_none_iff.mp hnone
    · exact hpoint hzero
    · exact Bool.false_ne_true (howned.symm.trans hown)
  obtain ⟨contents, hcontents⟩ := Option.ne_none_iff_exists'.mp honHost
  have hon := hpresent contents hcontents
  have hcolor : 4 ≤ idx := by
    by_contra hless
    have hfew : idx = 0 ∨ idx = 1 ∨ idx = 2 ∨ idx = 3 := by omega
    obtain rfl | rfl | rfl | rfl := hfew
    · exact hwrong (Or.inl ⟨hpoint, howned⟩)
    · refine hwrong (Or.inr (Or.inl ?_))
      rw [hon GL_DEPTH_ATTACHMENT (by decide)]
      exact Option.some_ne_none contents
    · refine hwrong (Or.inr (Or.inr ?_))
      rw [hon GL_STENCIL_ATTACHMENT (by decide)]
      exact Option.some_ne_none contents
    · refine hwrong (Or.inr (Or.inl ?_))
      rw [hon GL_DEPTH_ATTACHMENT (by decide)]
      exact Option.some_ne_none contents
  refine ⟨hcolor, fun htexture ↦ ?_⟩
  by_contra htakes
  -- the host has nothing at the point of a texture that it does not take
  have hself : index2Attachment idx ∈ hostPoints (index2Attachment idx) := by
    rw [(index2Attachment_color idx hidx hcolor).2.2]
    exact List.mem_singleton_self _
  have hrefused : (fb'.attachPoints idx).accepted takes2D getGlobalName = none := by
    rw [hloaded.accepted hidx, AttachPoint.accepted, AttachPoint.onHost, if_neg, if_neg]
    · exact if_neg htakes
    · rw [htexture]
      exact Bool.false_ne_true
    · exact not_or.mpr ⟨hpoint, Bool.eq_false_iff.mp howned⟩
  have hgone := hon (index2Attachment idx) hself
  rw [restore_color hnames fb.fbName host (hloaded.hasBeenBound.trans hbound) hidx hcolor, hrefused, Option.none_or,
    hhost] at hgone
  cases hgone

theorem FramebufferData.Intact.restored {host : Host} (hnames : ∀ type name, name ≠ 0 → getGlobalName type name ≠ 0)
    (hhost : ∀ point, host.attached (getGlobalName .framebuffer fb.fbName) point = none)
    (hloaded : Reloads fb fb') (hbound : fb.hasBeenBound = true) (h : fb.Intact takes2D) :
    Restored takes2D getGlobalName fb (restore takes2D getGlobalName fb.fbName host fb').1
      (restore takes2D getGlobalName fb.fbName host fb').2 := by
  have hbound' := hloaded.hasBeenBound.trans hbound
  obtain ⟨hframebuffer, hhostPoints⟩ := restore_spec takes2D hnames fb.fbName host hbound'
  have hpoints (idx : ℕ) (hidx : idx < MAX_ATTACH_POINTS) :
      (restore takes2D getGlobalName fb.fbName host fb').2.attachPoints idx =
        (fb'.attachPoints idx).restored getGlobalName := by
    rw [hframebuffer]
    exact if_pos hidx
  have honly (point : ℕ) (contents : HostAttachment)
      (hcontents : (restore takes2D getGlobalName fb.fbName host fb').1.attached
        (getGlobalName .framebuffer fb.fbName) point = some contents) :
      ∃ idx < MAX_ATTACH_POINTS, 4 ≤ idx ∧ point ∈ hostPoints (index2Attachment idx) ∧
        (fb.attachPoints idx).onHost getGlobalName = some contents := by
    by_cases hnone : ∀ idx < MAX_ATTACH_POINTS, point ∈ hostPoints (index2Attachment idx) →
        (fb'.attachPoints idx).accepted takes2D getGlobalName = none
    · rw [(hhostPoints point).1 hnone, hhost] at hcontents
      cases hcontents
    push Not at hnone
    obtain ⟨idx, hidx, hmem, hsome⟩ := hnone
    rw [hloaded.accepted hidx] at hsome
    have honHost : (fb.attachPoints idx).onHost getGlobalName ≠ none := fun hgone ↦ by
      rw [AttachPoint.accepted, hgone] at hsome
      exact hsome rfl
    obtain ⟨other, hother⟩ := Option.ne_none_iff_exists'.mp honHost
    obtain ⟨hcolor, haccepted⟩ := h.color hidx hother
    refine ⟨idx, hidx, hcolor, hmem, ?_⟩
    rw [(index2Attachment_color idx hidx hcolor).2.2, List.mem_singleton] at hmem
    rw [hmem, restore_color hnames fb.fbName host hbound' hidx hcolor, hloaded.accepted hidx, haccepted,
      Option.some_or] at hcontents
    rw [hother, hcontents]
  have hdropped (idx : ℕ) (hidx : idx < MAX_ATTACH_POINTS) (howned : (fb.attachPoints idx).owned = true) :
      ((restore takes2D getGlobalName fb.fbName host fb').2.attachPoints idx).name = 0 := by
    obtain ⟨obj, _, hpoint⟩ := hloaded.points idx hidx
    rw [hpoints idx hidx, hpoint, AttachPoint.restored]
    split_ifs with hzero
    · exact hzero
    · rfl
  have hnone (point : ℕ) (hpoint : point = GL_DEPTH_ATTACHMENT ∨ point = GL_STENCIL_ATTACHMENT) :
      (restore takes2D getGlobalName fb.fbName host fb').1.attached (getGlobalName .framebuffer fb.fbName) point =
        none := by
    by_contra hsome
    obtain ⟨contents, hcontents⟩ := Option.ne_none_iff_exists'.mp hsome
    obtain ⟨idx, hidx, hcolor, hmem, _⟩ := honly point contents hcontents
    obtain ⟨hdepth, hstencil, _⟩ := index2Attachment_color idx hidx hcolor
    obtain rfl | rfl := hpoint
    · exact hdepth hmem
    · exact hstencil hmem
  refine ⟨hdropped, fun idx hidx howned ↦ ?_, fun idx hidx contents hcontents point hpoint ↦ ?_,
    fun point contents hcontents ↦ ?_, fun tex globalName objects ↦ ?_⟩
  · obtain ⟨obj, hobj, hpoint⟩ := hloaded.points idx hidx
    rw [hpoints idx hidx, hpoint, howned, AttachPoint.restored]
    dsimp only
    by_cases hzero : (fb.attachPoints idx).name = 0
    · rw [if_pos hzero]
      exact ⟨rfl, rfl, fun hne ↦ absurd hzero hne⟩
    · rw [if_neg hzero, if_neg Bool.false_ne_true, hobj]
      exact ⟨rfl, rfl, fun _ ↦ rfl⟩
  · obtain ⟨hcolor, haccepted⟩ := h.color hidx hcontents
    rw [(index2Attachment_color idx hidx hcolor).2.2, List.mem_singleton] at hpoint
    rw [hpoint, restore_color hnames fb.fbName host hbound' hidx hcolor, hloaded.accepted hidx, haccepted,
      Option.some_or]
  · obtain ⟨idx, hidx, _, hmem, honHost⟩ := honly point contents hcontents
    exact ⟨idx, hidx, hmem, honHost⟩
  · have hzero : ((restore takes2D getGlobalName fb.fbName host fb').2.attachPoints 0).name = 0 := by
      have hidx : 0 < MAX_ATTACH_POINTS := by decide
      by_cases howned : (fb.attachPoints 0).owned = true
      · exact hdropped 0 hidx howned
      obtain ⟨obj, _, hpoint⟩ := hloaded.points 0 hidx
      have hname : (fb.attachPoints 0).name = 0 := by
        by_contra hname
        exact absurd (h 0 hidx hname (Bool.eq_false_iff.mpr howned)).1 (by decide)
      rw [hpoints 0 hidx, hpoint, AttachPoint.restored, if_pos hname]
      exact hname
    have hdepth := hnone _ (Or.inl rfl)
    have hstencil := hnone _ (Or.inr rfl)
    generalize restore takes2D getGlobalName fb.fbName host fb' = state at hzero hdepth hstencil ⊢
    rw [validate_eq takes2D objects (state.1.glBindFramebuffer _) tex globalName hzero hdepth hstencil]
    rfl

/-- A framebuffer that has never been bound has nothing to come back. -/
theorem restored_unbound {host : Host} (hempty : ∀ idx, fb.attachPoints idx = .empty)
    (hhost : ∀ point, host.attached (getGlobalName .framebuffer fb.fbName) point = none)
    (hloaded : Reloads fb fb') (hbound : fb.hasBeenBound = false) :
    Restored takes2D getGlobalName fb (restore takes2D getGlobalName fb.fbName host fb').1
      (restore takes2D getGlobalName fb.fbName host fb').2 := by
  have hstays : restore takes2D getGlobalName fb.fbName host fb' = (host, fb') := by
    rw [restore, hloaded.hasBeenBound, hbound]
    exact if_pos rfl
  have hnames (idx : ℕ) (hidx : idx < MAX_ATTACH_POINTS) :
      (fb'.attachPoints idx).target = 0 ∧ (fb'.attachPoints idx).name = 0 := by
    obtain ⟨obj, _, hpoint⟩ := hloaded.points idx hidx
    rw [hpoint, hempty idx]
    exact ⟨rfl, rfl⟩
  rw [hstays]
  refine ⟨fun idx hidx _ ↦ (hnames idx hidx).2, fun idx hidx _ ↦ ?_, fun idx _ contents hcontents ↦ ?_,
    fun point contents hcontents ↦ ?_, fun tex globalName objects ↦ ?_⟩
  · obtain ⟨htarget, hname⟩ := hnames idx hidx
    rw [hempty idx]
    exact ⟨htarget, hname, fun hne ↦ absurd rfl hne⟩
  · rw [hempty idx, AttachPoint.onHost_eq_none_iff.mpr (Or.inl rfl)] at hcontents
    cases hcontents
  · rw [hhost] at hcontents
    cases hcontents
  · have hcolor := (hnames 0 (by decide)).2
    rw [validate_eq takes2D objects (host.glBindFramebuffer _) tex globalName hcolor (hhost _) (hhost _)]
    rfl

end

/-- What is saved comes back unless something is attached that makes the framebuffer need no color attachment of
its own, or that the host does not take as a texture. -/
theorem frame_restored_iff (took2D takes2D : ℕ → Bool) (getGlobalName : NamedObjectType → ℕ → ℕ)
    (hnames : ∀ type name, name ≠ 0 → getGlobalName type name ≠ 0) (getObjDataPtr : ℕ → ℕ → Option ℕ) (made : ℕ → ℕ)
    {name : ℕ} (hname : name ≠ 0) (hlt : name < 2 ^ 32) (globalName : ℕ) (before after : Objects)
    (calls : List FramebufferCall) (fb : FramebufferData)
    (hrun : run (framebufferCall took2D) (before, .new name globalName) calls = some (after, fb)) (host : Host)
    (hhost : ∀ point, host.attached (getGlobalName .framebuffer name) point = none) (rest : List UInt8) :
    Restored takes2D getGlobalName fb
        (reload takes2D getGlobalName getObjDataPtr made host (fb.onSave ++ rest)).1
        (reload takes2D getGlobalName getObjDataPtr made host (fb.onSave ++ rest)).2 ↔
      fb.Intact takes2D := by
  have hnew : (FramebufferData.new name globalName).Tidy name :=
    ⟨rfl, ⟨hlt, fun _ ↦ ⟨Nat.two_pow_pos 32, Nat.two_pow_pos 32⟩, fun buf hbuf ↦ absurd hbuf List.not_mem_nil,
      Nat.two_pow_pos 32, (by decide : GL_COLOR_ATTACHMENT0 < 2 ^ 32)⟩, fun _ _ ↦ rfl⟩
  have htidy : fb.Tidy name := invariant_of_run tidy_call hnew hrun
  obtain ⟨fb', hloaded, hreload⟩ := htidy.fits.reloads takes2D getGlobalName getObjDataPtr made host rest
  rw [hreload]
  obtain rfl := htidy.fbName
  cases hbound : fb.hasBeenBound with
  | true =>
    exact ⟨fun h ↦ h.intact htidy.unbound hnames hname hhost hloaded,
      fun h ↦ h.restored hnames hhost hloaded hbound⟩
  | false =>
    have hempty := htidy.unbound hbound
    refine iff_of_true (restored_unbound hempty hhost hloaded hbound) fun idx _ hpoint ↦ ?_
    rw [hempty idx] at hpoint
    exact absurd rfl hpoint

/-- A framebuffer with one attachment. -/
def attachedOnce (attachment target name : ℕ) (obj : Option ℕ) : List FramebufferCall :=
  [.bind, .setAttachment attachment target name obj (name + 50)]

theorem frame_restored_iff_color :
    ∃ after fb,
      run (framebufferCall fun _ ↦ true) (⟨fun _ ↦ ⟨0, 0⟩, []⟩, .new 3 30)
          (attachedOnce GL_COLOR_ATTACHMENT1 GL_TEXTURE_2D 7 none) = some (after, fb) ∧
        (Restored (fun _ ↦ true) (fun _ name ↦ name + 100) fb
            (reload (fun _ ↦ true) (fun _ name ↦ name + 100) (fun _ _ ↦ none) (fun _ ↦ 0)
              ⟨0, fun _ _ ↦ none, fun _ ↦ [], fun _ ↦ 0⟩ (fb.onSave ++ [])).1
            (reload (fun _ ↦ true) (fun _ name ↦ name + 100) (fun _ _ ↦ none) (fun _ ↦ 0)
              ⟨0, fun _ _ ↦ none, fun _ ↦ [], fun _ ↦ 0⟩ (fb.onSave ++ [])).2 ↔
          fb.Intact fun _ ↦ true) := by
  obtain ⟨⟨after, fb⟩, hrun⟩ := Option.isSome_iff_exists.mp
    (by decide +kernel : (run (framebufferCall fun _ ↦ true) (⟨fun _ ↦ ⟨0, 0⟩, []⟩, .new 3 30)
      (attachedOnce GL_COLOR_ATTACHMENT1 GL_TEXTURE_2D 7 none)).isSome = true)
  have hnames (type : NamedObjectType) (name : ℕ) (hname : name ≠ 0) : name + 100 ≠ 0 := fun hzero ↦
    hname (Nat.eq_zero_of_add_eq_zero_right hzero)
  exact ⟨after, fb, hrun, frame_restored_iff _ _ _ hnames _ _ (by decide : 3 ≠ 0) (by decide) 30 _ after _ fb hrun _
    (fun _ ↦ rfl) []⟩

/-- A framebuffer with a depth buffer only. The host is left without a framebuffer. -/
theorem bound_to_zero :
    ∃ after fb fb' host',
      run (framebufferCall fun _ ↦ true) (⟨fun _ ↦ ⟨0, 0⟩, []⟩, .new 3 30)
          (attachedOnce GL_DEPTH_ATTACHMENT GL_RENDERBUFFER 7 (some 1)) = some (after, fb) ∧
        reload (fun _ ↦ true) (fun _ name ↦ name + 100) (fun _ _ ↦ none) (fun _ ↦ 0)
            ⟨0, fun _ _ ↦ none, fun _ ↦ [], fun _ ↦ 0⟩ fb.onSave = (host', fb') ∧
        (validate (fun _ ↦ true) 9 90 ⟨fun _ ↦ ⟨0, 0⟩, []⟩ (host'.glBindFramebuffer 103) fb').2.1.bound = 0 ∧
        ¬Restored (fun _ ↦ true) (fun _ name ↦ name + 100) fb host' fb' := by
  have hany : (run (framebufferCall fun _ ↦ true) (⟨fun _ ↦ ⟨0, 0⟩, []⟩, .new 3 30)
      (attachedOnce GL_DEPTH_ATTACHMENT GL_RENDERBUFFER 7 (some 1))).any (fun state ↦
        state.2.fbName = 3 ∧
          (validate (fun _ ↦ true) 9 90 ⟨fun _ ↦ ⟨0, 0⟩, []⟩
            ((reload (fun _ ↦ true) (fun _ name ↦ name + 100) (fun _ _ ↦ none) (fun _ ↦ 0)
              ⟨0, fun _ _ ↦ none, fun _ ↦ [], fun _ ↦ 0⟩ state.2.onSave).1.glBindFramebuffer 103)
            (reload (fun _ ↦ true) (fun _ name ↦ name + 100) (fun _ _ ↦ none) (fun _ ↦ 0)
              ⟨0, fun _ _ ↦ none, fun _ ↦ [], fun _ ↦ 0⟩ state.2.onSave).2).2.1.bound = 0) = true := by
    decide +kernel
  obtain ⟨⟨after, fb⟩, hrun, hlast⟩ := (Option.any_eq_true _ _).mp hany
  rw [decide_eq_true_eq] at hlast
  obtain ⟨hname, hzero⟩ := hlast
  dsimp only at hname hzero
  generalize hreload : reload (fun _ ↦ true) (fun _ name ↦ name + 100) (fun _ _ ↦ none) (fun _ ↦ 0)
    ⟨0, fun _ _ ↦ none, fun _ ↦ [], fun _ ↦ 0⟩ fb.onSave = loaded at hzero
  refine ⟨after, fb, loaded.2, loaded.1, hrun, hreload, hzero, fun h ↦ ?_⟩
  have hbound := h.validated 9 90 ⟨fun _ ↦ ⟨0, 0⟩, []⟩
  rw [hname, hzero] at hbound
  exact absurd hbound (by decide)

end FdeEmugl.Framebuffers
