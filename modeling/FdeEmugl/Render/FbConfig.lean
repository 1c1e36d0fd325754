import FdeEmugl.Library.Walk

/-!
# Choice of configurations

The guest asks for configurations with a list of attributes that ends with `EGL_NONE`. The list is scanned, rewritten
and passed on to the EGL of the host; the configurations that it chooses are reported by their places in the list of
the guest's configurations.
-/

namespace FdeEmugl.Configs

open List (append_nil forall_mem_cons mem_append mem_map mem_range mem_singleton not_mem_nil)

/-! ## The code -/

abbrev EGLint := BitVec 32

def EGL_BLUE_SIZE : EGLint := 0x3022
def EGL_GREEN_SIZE : EGLint := 0x3023
def EGL_RED_SIZE : EGLint := 0x3024
def EGL_CONFIG_CAVEAT : EGLint := 0x3027
def EGL_CONFIG_ID : EGLint := 0x3028
def EGL_SURFACE_TYPE : EGLint := 0x3033
def EGL_NONE : EGLint := 0x3038
def EGL_RENDERABLE_TYPE : EGLint := 0x3040
def EGL_DONT_CARE : EGLint := -1
def EGL_PBUFFER_BIT : EGLint := 0x0001
def EGL_OPENGL_ES3_BIT_KHR : EGLint := 0x0040
def EGL_SWAP_BEHAVIOR_PRESERVED_BIT : EGLint := 0x0400

inductive SelectedRenderer
  | UNKNOWN
  | HOST
  | OFF
  | GUEST
  | MESA
  | SWIFTSHADER
  | ANGLE
  | ANGLE9
  | SWIFTSHADER_INDIRECT
  | ANGLE_INDIRECT
  | ANGLE9_INDIRECT
  | ERROR
  deriving DecidableEq

/-- What `chooseConfig` asks the emulator. -/
structure Settings where
  GLESDynamicVersion : Bool
  maxGLESVersion : ℕ
  apiLevel : ℤ
  renderer : SelectedRenderer

def GLES_DISPATCH_MAX_VERSION_3_0 : ℕ := 1

/-- The EGL of the host. Without a result, a call failed. -/
structure Host (EGLConfig : Type*) where
  eglGetConfigs : Option (List EGLConfig)
  eglGetConfigAttrib : EGLConfig → EGLint → EGLint
  eglChooseConfig : List EGLint → ℕ → Except ℤ (List EGLConfig)

structure FbConfig (EGLConfig : Type*) where
  mEglConfig : EGLConfig
  configId : EGLint

variable {EGLConfig : Type*}

def isCompatibleHostConfig (host : Host EGLConfig) (config : EGLConfig) : Bool :=
  let surfaceType := host.eglGetConfigAttrib config EGL_SURFACE_TYPE
  if surfaceType &&& EGL_PBUFFER_BIT = 0 then false
  else
    let redSize := host.eglGetConfigAttrib config EGL_RED_SIZE
    let greenSize := host.eglGetConfigAttrib config EGL_GREEN_SIZE
    let blueSize := host.eglGetConfigAttrib config EGL_BLUE_SIZE
    if redSize = 0 ∨ greenSize = 0 ∨ blueSize = 0 then false else true

/-- The configurations of the guest. -/
def FbConfigList (host : Host EGLConfig) : List (FbConfig EGLConfig) :=
  match host.eglGetConfigs with
  | none => []
  | some hostConfigs =>
    (hostConfigs.filter (isCompatibleHostConfig host)).map fun config ↦
      ⟨config, host.eglGetConfigAttrib config EGL_CONFIG_ID⟩

/-- The scan of the attributes, with the places that were read. -/
structure Scan where
  numAttribs : ℕ := 0
  hasSurfaceType : Bool := false
  wantSwapPreserved : Bool := false
  surfaceTypeIdx : ℕ := 0
  reads : List ℕ := []

def noteSurfaceType (attribs : ℕ → EGLint) (scan : Scan) : Scan :=
  if attribs scan.numAttribs = EGL_SURFACE_TYPE then
    { scan with
      hasSurfaceType := true
      surfaceTypeIdx := scan.numAttribs
      wantSwapPreserved :=
        scan.wantSwapPreserved || attribs (scan.numAttribs + 1) &&& EGL_SWAP_BEHAVIOR_PRESERVED_BIT ≠ 0
      reads := scan.reads ++ [scan.numAttribs + 1] }
  else scan

/-- The guest asks for ES3, and it is not there. -/
def rejects (settings : Settings) (attribs : ℕ → EGLint) (n : ℕ) : Bool :=
  attribs n = EGL_RENDERABLE_TYPE ∧ attribs (n + 1) ≠ EGL_DONT_CARE ∧ attribs (n + 1) &&& EGL_OPENGL_ES3_BIT_KHR ≠ 0 ∧
    (!settings.GLESDynamicVersion ∨ settings.maxGLESVersion < GLES_DISPATCH_MAX_VERSION_3_0)

/-- A round of the scan; at its end, whether the list was rejected. -/
def scanBody (settings : Settings) (attribs : ℕ → EGLint) (scan : Scan) : Scan ⊕ (Bool × Scan) :=
  let n := scan.numAttribs
  let scan := { scan with reads := scan.reads ++ [n] }
  if attribs n = EGL_NONE then .inr (false, scan)
  else
    let scan := noteSurfaceType attribs scan
    let scan :=
      if attribs n = EGL_RENDERABLE_TYPE then { scan with reads := scan.reads ++ [n + 1] } else scan
    if rejects settings attribs n then .inr (true, scan)
    else .inl { scan with numAttribs := n + 2 }

/-- The list that is passed on. -/
def rewrite (settings : Settings) (attribs : ℕ → EGLint) (scan : Scan) : List EGLint :=
  let newAttribs := (List.range scan.numAttribs).map attribs
  let newAttribs :=
    if !scan.hasSurfaceType then newAttribs ++ [EGL_SURFACE_TYPE, 0]
    else if scan.wantSwapPreserved ∧ settings.apiLevel ≤ 19 then
      newAttribs.modify (scan.surfaceTypeIdx + 1) (· &&& ~~~EGL_SWAP_BEHAVIOR_PRESERVED_BIT)
    else newAttribs
  let newAttribs :=
    if settings.renderer = .SWIFTSHADER ∨ settings.renderer = .SWIFTSHADER_INDIRECT ∨ settings.renderer = .ANGLE ∨
        settings.renderer = .ANGLE_INDIRECT then
      newAttribs ++ [EGL_CONFIG_CAVEAT, EGL_DONT_CARE]
    else newAttribs
  newAttribs ++ [EGL_NONE]

/-- The loop over the chosen configurations: the result, and what is written where. -/
def countConfigs (host : Host EGLConfig) (mConfigs : List (FbConfig EGLConfig)) (configs : Bool) (configsSize : ℤ) :
    List EGLConfig → ℕ → List (ℕ × ℕ) → ℕ × List (ℕ × ℕ)
  | [], result, writes => (result, writes)
  | config :: matchedConfigs, result, writes =>
    if configs ∧ 0 < configsSize ∧ configsSize ≤ result then (result, writes)
    else if !isCompatibleHostConfig host config then
      countConfigs host mConfigs configs configsSize matchedConfigs result writes
    else
      match mConfigs.findIdx? fun guest ↦ guest.configId = host.eglGetConfigAttrib config EGL_CONFIG_ID with
      | none => countConfigs host mConfigs configs configsSize matchedConfigs result writes
      | some k =>
        let writes := if configs ∧ result < configsSize then writes ++ [(result, k)] else writes
        countConfigs host mConfigs configs configsSize matchedConfigs (result + 1) writes

/-- The result, what is written to the array of configurations, and what is read of the attributes. -/
structure Outcome where
  result : ℤ
  writes : List (ℕ × ℕ)
  reads : List ℕ
  deriving DecidableEq

def chooseConfig (fuel : ℕ) (settings : Settings) (host : Host EGLConfig) (mConfigs : List (FbConfig EGLConfig))
    (attribs : ℕ → EGLint) (configs : Bool) (configsSize : ℤ) : Option Outcome :=
  match host.eglGetConfigs with
  | none => some ⟨0, [], []⟩
  | some hostConfigs =>
    (Walk.loop (scanBody settings attribs) fuel {}).map fun (rejected, scan) ↦
      if rejected then ⟨0, [], scan.reads⟩
      else
        let reads := scan.reads ++ List.range scan.numAttribs
        match host.eglChooseConfig (rewrite settings attribs scan) hostConfigs.length with
        | .error error => ⟨-error, [], reads⟩
        | .ok matchedConfigs =>
          let (result, writes) := countConfigs host mConfigs configs configsSize matchedConfigs 0 []
          ⟨result, writes, reads⟩

/-- With the memory from `attribs` on, and whether there is an array for the configurations. -/
def rcChooseConfig (fuel : ℕ) (settings : Settings) (host : Host EGLConfig) (fb : Bool) (attribs : ℕ → EGLint)
    (attribs_size : BitVec 32) (configs : Bool) (configs_size : BitVec 32) : Option Outcome :=
  if !fb then some ⟨0, [], []⟩
  else
    let first := if attribs_size = 0 ∧ configs ∧ 0 < configs_size then [(0, 0)] else []
    (chooseConfig fuel settings host (FbConfigList host) attribs configs configs_size.toInt).map fun outcome ↦
      { outcome with writes := first ++ outcome.writes }

/-! ## The scan -/

section Scanning

variable {settings : Settings} {attribs : ℕ → EGLint} {scan next : Scan} {m last : ℕ}

/-- The scan of `m` attributes; what it has noted is about the last surface type. -/
structure Scanned (attribs : ℕ → EGLint) (scan : Scan) (m : ℕ) : Prop where
  numAttribs : scan.numAttribs = 2 * m
  names : ∀ j < m, attribs (2 * j) ≠ EGL_NONE
  unset : scan.hasSurfaceType = false → ∀ j < m, attribs (2 * j) ≠ EGL_SURFACE_TYPE
  set : scan.hasSurfaceType = true → ∃ j < m, scan.surfaceTypeIdx = 2 * j ∧ attribs (2 * j) = EGL_SURFACE_TYPE ∧
    ∀ i, j < i → i < m → attribs (2 * i) ≠ EGL_SURFACE_TYPE
  preserved : scan.wantSwapPreserved = false → ∀ j < m, attribs (2 * j) = EGL_SURFACE_TYPE →
    attribs (2 * j + 1) &&& EGL_SWAP_BEHAVIOR_PRESERVED_BIT = 0

theorem Scanned.le_last (h : Scanned attribs scan m) (hlast : attribs (2 * last) = EGL_NONE) : m ≤ last := by
  by_contra! hlt
  exact h.names last hlt hlast

theorem forall_lt_succ {P : ℕ → Prop} (h : ∀ j < m, P j) (hlast : P m) : ∀ j < m + 1, P j := by
  intro j hj
  obtain hj | rfl := Nat.lt_succ_iff_lt_or_eq.mp hj
  · exact h j hj
  · exact hlast

/-- What the scan notes of one more attribute. -/
theorem Scanned.note (h : Scanned attribs scan m) (hname : attribs (2 * m) ≠ EGL_NONE)
    (hnumAttribs : next.numAttribs = 2 * m + 2)
    (hhas : next.hasSurfaceType = (noteSurfaceType attribs scan).hasSurfaceType)
    (hwant : next.wantSwapPreserved = (noteSurfaceType attribs scan).wantSwapPreserved)
    (hidx : next.surfaceTypeIdx = (noteSurfaceType attribs scan).surfaceTypeIdx) : Scanned attribs next (m + 1) := by
  rw [noteSurfaceType, h.numAttribs] at hhas hwant hidx
  by_cases hsurface : attribs (2 * m) = EGL_SURFACE_TYPE
  · rw [if_pos hsurface] at hhas hwant hidx
    refine ⟨hnumAttribs, forall_lt_succ h.names hname, fun hunset ↦ ?_, fun _ ↦ ?_, fun hnot ↦ ?_⟩
    · exact Bool.noConfusion (hhas.symm.trans hunset)
    · exact ⟨m, Nat.lt_succ_self m, hidx, hsurface, fun i hlt hle ↦ absurd hle (by omega)⟩
    · rw [hwant, Bool.or_eq_false_iff] at hnot
      exact forall_lt_succ (h.preserved hnot.1) fun _ ↦ of_decide_eq_false hnot.2 |> not_not.mp
  · rw [if_neg hsurface] at hhas hwant hidx
    refine ⟨hnumAttribs, forall_lt_succ h.names hname, fun hunset ↦ ?_, fun hset ↦ ?_, fun hnot ↦ ?_⟩
    · exact forall_lt_succ (h.unset (hhas.symm.trans hunset)) hsurface
    · obtain ⟨j, hj, hplace, hname, hlater⟩ := h.set (hhas.symm.trans hset)
      refine ⟨j, Nat.lt_succ_of_lt hj, hidx.trans hplace, hname, fun i hlt hi ↦ ?_⟩
      obtain hi | rfl := Nat.lt_succ_iff_lt_or_eq.mp hi
      · exact hlater i hlt hi
      · exact hsurface
    · exact forall_lt_succ (h.preserved (hwant.symm.trans hnot)) fun hname ↦ absurd hname hsurface

/-- What the scan notes does not depend on the places that were read. -/
theorem noteSurfaceType_reads (attribs : ℕ → EGLint) (scan : Scan) (reads : List ℕ) :
    noteSurfaceType attribs { scan with reads := reads } =
      { noteSurfaceType attribs scan with
        reads := reads ++ if attribs scan.numAttribs = EGL_SURFACE_TYPE then [scan.numAttribs + 1] else [] } := by
  simp only [noteSurfaceType]
  split_ifs
  · rfl
  · rw [append_nil]

/-- The places that a round reads. -/
def roundReads (attribs : ℕ → EGLint) (n : ℕ) : List ℕ :=
  [n] ++ (if attribs n = EGL_SURFACE_TYPE then [n + 1] else []) ++
    if attribs n = EGL_RENDERABLE_TYPE then [n + 1] else []

/-- A round, with the places that it reads put together. -/
theorem scanBody_eq (settings : Settings) (attribs : ℕ → EGLint) (scan : Scan) : scanBody settings attribs scan =
    if attribs scan.numAttribs = EGL_NONE then .inr (false, { scan with reads := scan.reads ++ [scan.numAttribs] })
    else if rejects settings attribs scan.numAttribs then
      .inr (true, { noteSurfaceType attribs scan with reads := scan.reads ++ roundReads attribs scan.numAttribs })
    else
      .inl
        { noteSurfaceType attribs scan with
          numAttribs := scan.numAttribs + 2
          reads := scan.reads ++ roundReads attribs scan.numAttribs } := by
  simp only [scanBody, noteSurfaceType_reads, roundReads]
  split_ifs <;> simp

/-- One more attribute. -/
theorem Scanned.goes (h : Scanned attribs scan m) (hgoes : Walk.Goes (scanBody settings attribs) scan next) :
    Scanned attribs next (m + 1) ∧ next.reads = scan.reads ++ roundReads attribs (2 * m) := by
  rw [Walk.Goes, scanBody_eq] at hgoes
  split_ifs at hgoes with hname hreject
  cases hgoes
  rw [h.numAttribs] at hname
  refine ⟨h.note hname ?_ rfl rfl rfl, ?_⟩
  · exact congrArg (· + 2) h.numAttribs
  · rw [h.numAttribs]

/-- The end of a scan: the terminator was found, or the list was rejected. Nothing behind a terminator was read. -/
structure Ends (attribs : ℕ → EGLint) (rejected : Bool) (scan : Scan) : Prop where
  terminated : rejected = false → ∃ m, attribs (2 * m) = EGL_NONE ∧ Scanned attribs scan m
  reads : ∀ last, attribs (2 * last) = EGL_NONE → ∀ place ∈ scan.reads, place ≤ 2 * last

end Scanning

/-! ## Lists of attributes -/

abbrev Attributes := List (EGLint × EGLint)

/-- The attributes of a list, up to its end. -/
def attributesOf : List EGLint → Attributes
  | name :: value :: list => if name = EGL_NONE then [] else (name, value) :: attributesOf list
  | _ => []

def lastValue (name : EGLint) : Attributes → Option EGLint
  | [] => none
  | attr :: attributes =>
    (lastValue name attributes).or (if attr.1 = name then some attr.2 else none)

/-- The attributes ask for a configuration by its id. -/
def Identifies (attributes : Attributes) : Prop := ∃ id, (EGL_CONFIG_ID, id) ∈ attributes ∧ id ≠ EGL_DONT_CARE

/-- The attributes ask for the value. If they ask for an id, the others are ignored; of two values the last one
counts. -/
def Requests (attributes : Attributes) (name value : EGLint) : Prop :=
  (Identifies attributes ∧ name = EGL_CONFIG_ID ∧ value ≠ EGL_DONT_CARE ∧
      ∀ id, (EGL_CONFIG_ID, id) ∈ attributes → id ≠ EGL_DONT_CARE → id = value) ∨
    (¬ Identifies attributes ∧ lastValue name attributes = some value)

/-- The attributes of the guest. -/
def guestAttributes (attribs : ℕ → EGLint) (m : ℕ) : Attributes :=
  (List.range m).map fun j ↦ (attribs (2 * j), attribs (2 * j + 1))

section Attribute

variable {attribs : ℕ → EGLint} {scan : Scan} {m : ℕ} {name value : EGLint} {first second before after : Attributes}

theorem lastValue_eq_none (h : ∀ attr ∈ first, attr.1 ≠ name) : lastValue name first = none := by
  induction first with
  | nil => rfl
  | cons attr first ih =>
    obtain ⟨hname, hnames⟩ := forall_mem_cons.mp h
    rw [lastValue, ih hnames, if_neg hname]
    rfl

/-- The last surface type among the attributes of the guest. -/
theorem Scanned.exists_last (h : Scanned attribs scan m) (hset : scan.hasSurfaceType = true) :
    ∃ before value after, guestAttributes attribs m = before ++ (EGL_SURFACE_TYPE, value) :: after ∧
      scan.surfaceTypeIdx = 2 * before.length ∧ ∀ attr ∈ after, attr.1 ≠ EGL_SURFACE_TYPE := by
  obtain ⟨j, hj, hplace, hname, hlater⟩ := h.set hset
  have hlength : (guestAttributes attribs m).length = m := by rw [guestAttributes, List.length_map, List.length_range]
  refine ⟨(guestAttributes attribs m).take j, attribs (2 * j + 1), (guestAttributes attribs m).drop (j + 1), ?_, ?_,
    fun attr hmem ↦ ?_⟩
  · have hinside : j < (guestAttributes attribs m).length := by omega
    have hget : (guestAttributes attribs m)[j] = (EGL_SURFACE_TYPE, attribs (2 * j + 1)) := by
      simp only [guestAttributes, List.getElem_map, List.getElem_range, hname]
    rw [← hget, List.cons_getElem_drop_succ, List.take_append_drop]
  · rw [hplace, List.length_take_of_le (by omega)]
  · obtain ⟨i, hi, rfl⟩ := List.mem_drop_iff_getElem.mp hmem
    simp only [guestAttributes, List.getElem_map, List.getElem_range]
    exact hlater _ (by omega) (by omega)

end Attribute

/-! ## The list that is passed on -/

/-- The value that the host is asked for: old guests do not get surfaces whose contents are preserved. -/
def passed (settings : Settings) (name value : EGLint) : EGLint :=
  if name = EGL_SURFACE_TYPE ∧ settings.apiLevel ≤ 19 then value &&& ~~~EGL_SWAP_BEHAVIOR_PRESERVED_BIT else value

/-- The attributes of the guest are among others, as they are passed on. -/
structure Adjusts (settings : Settings) (guest attributes : Attributes) : Prop where
  names : ∀ attr ∈ attributes, attr.1 ≠ EGL_NONE
  ids : ∀ id, (EGL_CONFIG_ID, id) ∈ attributes ↔ (EGL_CONFIG_ID, id) ∈ guest
  last : ∀ name value, lastValue name guest = some value →
    lastValue name attributes = some (passed settings name value)

section Adjustment

variable {settings : Settings} {attribs : ℕ → EGLint} {scan : Scan} {m : ℕ} {guest attributes : Attributes}
  {name value : EGLint}

theorem passed_of_ne (hname : name ≠ EGL_SURFACE_TYPE) : passed settings name value = value :=
  if_neg fun hboth ↦ hname hboth.1

theorem Adjusts.requests (h : Adjusts settings guest attributes) (hrequests : Requests guest name value) :
    Requests attributes name (passed settings name value) := by
  have hidentifies : Identifies attributes ↔ Identifies guest := exists_congr fun id ↦ and_congr_left' (h.ids id)
  obtain ⟨hid, rfl, hvalue, hunique⟩ | ⟨hid, hlast⟩ := hrequests
  · rw [passed_of_ne (by decide)]
    exact .inl ⟨hidentifies.mpr hid, rfl, hvalue, fun id hmem ↦ hunique id ((h.ids id).mp hmem)⟩
  · exact .inr ⟨fun hnew ↦ hid (hidentifies.mp hnew), h.last name value hlast⟩

end Adjustment

/-! ## The configurations of the result -/

section Choice

variable {settings : Settings} {host : Host EGLConfig} {satisfies : EGLConfig → EGLint → EGLint → Prop}
  {attribs : ℕ → EGLint} {mConfigs : List (FbConfig EGLConfig)} {configs : Bool} {configsSize : ℤ}
  {config : EGLConfig} {k : ℕ}

/-- What the EGL of the host promises: it chooses different ones of its configurations, each one has what is requested
of it, and their ids are different. -/
structure Host.Keeps (host : Host EGLConfig) (satisfies : EGLConfig → EGLint → EGLint → Prop) : Prop where
  chosen : ∀ list size matched, host.eglChooseConfig list size = .ok matched → matched.Nodup ∧
    ∀ config ∈ matched, (∃ all, host.eglGetConfigs = some all ∧ config ∈ all) ∧
      ∀ name value, Requests (attributesOf list) name value → satisfies config name value
  ids : ∀ all, host.eglGetConfigs = some all → ∀ config ∈ all, ∀ other ∈ all,
    host.eglGetConfigAttrib config EGL_CONFIG_ID = host.eglGetConfigAttrib other EGL_CONFIG_ID → config = other

/-- The entries for counted configurations, from a place on. -/
def entries (configs : Bool) (configsSize : ℤ) : ℕ → List (EGLConfig × ℕ) → List (ℕ × ℕ)
  | _, [] => []
  | place, pair :: counted =>
    (if configs ∧ place < configsSize then [(place, pair.2)] else []) ++
      entries configs configsSize (place + 1) counted

end Choice

/-! ## A host -/

section Sample

end Sample

end FdeEmugl.Configs
