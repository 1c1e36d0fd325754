import FdeEmugl.Base.Stream
import FdeEmugl.Pipe.AsyncHandles
import Mathlib.Data.List.Perm.Subperm
import Mathlib.Data.List.TakeWhile

/-!
# The streams of the services in a snapshot

A snapshot has one stream for each service, behind the name of the service. When it is loaded, the services can be
others, in another order: each stream goes to the service with its name, and a service without one is told so.
-/

namespace FdeEmugl.ServiceStreams

open FdeEmugl.Stream
open AsyncHandles (findServicePositionByName found getElem?_of_find exists_find mem_found)
open List (append_assoc length_replicate map_map mem_map)

/-! ## The code -/

def putBe16 (value : UInt16) : List UInt8 := [(value >>> 8).toUInt8, value.toUInt8]

def getBe16 (stream : List UInt8) : UInt16 × List UInt8 :=
  let (bytes, rest) := Stream.read 2 stream
  ((bytes.getD 0 0).toUInt16 <<< 8 ||| (bytes.getD 1 0).toUInt16, rest)

/-- `c_str()`, for a function that takes the text up to its first zero. -/
def c_str (text : List UInt8) : List UInt8 := text.takeWhile (· ≠ 0)

def isPipeOptional (name : List UInt8) : Bool :=
  name = "OffworldPipe".toList.map fun letter ↦ UInt8.ofNat letter.toNat

/-- Each service with what `func` writes for it. -/
def forEachServiceToStream (services : List (List UInt8 × List UInt8)) : List UInt8 :=
  putBe16 services.length.toUInt16 ++ services.flatMap fun service ↦ putString service.1 ++ saveBuffer service.2

section FromStream

variable {Caller : Type} (assertions : Bool) (services : List (List UInt8))
  (func : Caller → ℕ → Option (List UInt8) → Caller × List UInt8)

/-- The loop over the streams. The function is called for a service with the bytes of a stream of its own, and leaves
some of them unread. Without assertions, a stream that no service takes is passed. -/
def loadServices : ℕ → List UInt8 → Option ℕ → List ℕ → Caller → Option (List UInt8 × List ℕ × Caller)
  | 0, stream, _, missingServices, caller => some (stream, missingServices, caller)
  | count + 1, stream, servicePos, missingServices, caller =>
    let (name, afterName) := getString stream
    let (_, pipeStream, rest) := loadBuffer afterName
    match findServicePositionByName services (c_str name) (servicePos.elim 0 Nat.succ) with
    | some position =>
      loadServices count rest (some position) (missingServices.erase position)
        (func caller position (some pipeStream)).1
    | none =>
      if isPipeOptional name then loadServices count rest none missingServices caller
      else if assertions then none
      else loadServices count rest none missingServices caller

/-- The services without a stream come in the order of an unordered set. -/
def forEachServiceFromStream (order : List ℕ → List ℕ) (caller : Caller) (stream : List UInt8) :
    Option (Caller × List UInt8) :=
  let (count, rest) := getBe16 stream
  (loadServices assertions services func count.toNat rest none (List.range services.length) caller).map
    fun (rest, missingServices, caller) ↦
      ((order missingServices).foldl (fun caller position ↦ (func caller position none).1) caller, rest)

end FromStream

/-! ## Matching by name -/

/-- Services have different names, which are C strings. -/
structure Registered (services : List (List UInt8)) : Prop where
  nodup : services.Nodup
  terminated : ∀ name ∈ services, 0 ∉ name

/-- Each service is called once, with its own bytes if there are any. -/
structure Matched (saved : List (List UInt8 × List UInt8)) (services : List (List UInt8))
    (calls : List (ℕ × Option (List UInt8))) : Prop where
  once : (calls.map Prod.fst).Perm (List.range services.length)
  own : ∀ position data name, (position, data) ∈ calls → services[position]? = some name → data = saved.lookup name

/-- Loading what was saved makes the right calls and stops behind it, whatever the function does. -/
def Restores (assertions : Bool) (saved : List (List UInt8 × List UInt8)) (services : List (List UInt8)) : Prop :=
  ∀ order : List ℕ → List ℕ, (∀ list, (order list).Perm list) → ∀ rest, ∃ calls, Matched saved services calls ∧
    ∀ {Caller : Type} (func : Caller → ℕ → Option (List UInt8) → Caller × List UInt8) (caller : Caller),
      forEachServiceFromStream assertions services func order caller (forEachServiceToStream saved ++ rest) =
        some (calls.foldl (fun caller call ↦ (func caller call.1 call.2).1) caller, rest)

/-- The name of a service is found from everywhere. -/
def Finds (services : List (List UInt8)) : Prop :=
  ∀ startPosHint ≤ services.length, ∀ position name, services[position]? = some name →
    findServicePositionByName services name startPosHint = some position

/-- The numbers of the format can hold what is saved. -/
structure Fits (saved : List (List UInt8 × List UInt8)) : Prop where
  count : saved.length < 2 ^ 16
  name : ∀ service ∈ saved, service.1.length < 2 ^ 32
  data : ∀ service ∈ saved, service.2.length < 2 ^ 32

/-- Where assertions are compiled in, a stream that no service takes has to be optional. -/
def Accepted (assertions : Bool) (saved : List (List UInt8 × List UInt8)) (services : List (List UInt8)) : Prop :=
  assertions = true → ∀ service ∈ saved, service.1 ∈ services ∨ isPipeOptional service.1 = true

/-! ## The format -/

variable {saved : List (List UInt8 × List UInt8)} {services : List (List UInt8)}

variable {name data : List UInt8}

@[simp] theorem getBe16_putBe16 (value : UInt16) (rest : List UInt8) :
    getBe16 (putBe16 value ++ rest) = (value, rest) := by
  have hjoin : (value >>> 8).toUInt8.toUInt16 <<< 8 ||| value.toUInt8.toUInt16 = value := by
    apply UInt16.toNat_inj.mp
    have hlt := value.toNat_lt
    have hlow : value.toNat % 2 ^ 8 < 2 ^ 8 := Nat.mod_lt _ (by decide)
    have hhigh : value.toNat / 2 ^ 8 < 2 ^ 8 := by omega
    have hor := Nat.shiftLeft_add_eq_or_of_lt hlow (value.toNat / 2 ^ 8)
    simp only [UInt16.toNat_or, UInt16.toNat_shiftLeft, UInt8.toNat_toUInt16, UInt16.toNat_toUInt8,
      UInt16.toNat_shiftRight, UInt16.reduceToNat, Nat.reduceMod, Nat.shiftRight_eq_div_pow, Nat.mod_eq_of_lt hhigh]
    rw [Nat.mod_eq_of_lt (by rw [Nat.shiftLeft_eq]; omega), ← hor, Nat.shiftLeft_eq]
    omega
  exact Prod.ext hjoin rfl

theorem c_str_of_notMem (h : 0 ∉ name) : c_str name = name :=
  List.takeWhile_eq_self_iff.mpr fun _ hbyte ↦ decide_eq_true fun hzero ↦ h (hzero ▸ hbyte)

/-- The bytes of a stream are loaded as long as their number is not cut. -/
theorem loadBuffer_data (h : data.length < 2 ^ 32) (rest : List UInt8) :
    (loadBuffer (saveBuffer data ++ rest)).2 = (data, rest) := by
  have hlength : (UInt32.ofNat data.length).toNat = data.length := UInt32.toNat_ofNat_of_lt' h
  simp only [loadBuffer, saveBuffer, append_assoc, getBe32_putBe32, Stream.read, hlength, List.take_left,
    List.drop_left, Nat.sub_self, List.replicate_zero, List.append_nil]

/-- The loop calls the function for the services that are found, and takes these from the missing ones. -/
theorem loadServices_eq {Caller : Type} {assertions : Bool}
    (func : Caller → ℕ → Option (List UInt8) → Caller × List UInt8) (hsaved : ∀ service ∈ saved, 0 ∉ service.1)
    (hname : ∀ service ∈ saved, service.1.length < 2 ^ 32) (hdata : ∀ service ∈ saved, service.2.length < 2 ^ 32)
    (haccepted : Accepted assertions saved services) (rest : List UInt8) (servicePos : Option ℕ)
    (missingServices : List ℕ) (caller : Caller) :
    loadServices assertions services func saved.length
        ((saved.flatMap fun service ↦ putString service.1 ++ saveBuffer service.2) ++ rest) servicePos missingServices
        caller =
      some (rest, missingServices.diff ((found services servicePos saved).map Prod.fst),
        (found services servicePos saved).foldl (fun caller call ↦ (func caller call.1 (some call.2)).1) caller) := by
  induction saved generalizing servicePos missingServices caller with
  | nil => rfl
  | cons service saved ih =>
    obtain ⟨name, data⟩ := service
    obtain ⟨hzero, hsaved⟩ := List.forall_mem_cons.mp hsaved
    obtain ⟨hlong, hname⟩ := List.forall_mem_cons.mp hname
    obtain ⟨hmuch, hdata⟩ := List.forall_mem_cons.mp hdata
    have hrest : Accepted assertions saved services := fun hassertions service hservice ↦
      haccepted hassertions service (List.mem_cons_of_mem _ hservice)
    rw [List.flatMap_cons, List.length_cons, loadServices, append_assoc, append_assoc,
      getString_putString hlong]
    simp only [c_str_of_notMem hzero, loadBuffer_data hmuch, found]
    cases hfind : findServicePositionByName services name (servicePos.elim 0 Nat.succ) with
    | some position =>
      simp only
      rw [ih hsaved hname hdata hrest, List.map_cons, List.diff_cons, List.foldl_cons]
    | none =>
      have hmissing : name ∉ services := by
        intro hmem
        obtain ⟨position, hposition⟩ := exists_find hmem (servicePos.elim 0 Nat.succ)
        rw [hfind] at hposition
        cases hposition
      simp only
      split_ifs with hoptional hassertions
      · exact ih hsaved hname hdata hrest none missingServices caller
      · exact absurd ((haccepted hassertions (name, data) List.mem_cons_self).resolve_left hmissing) hoptional
      · exact ih hsaved hname hdata hrest none missingServices caller

/-! ## The calls -/

theorem mem_found_saved {servicePos : Option ℕ} {position : ℕ}
    (h : (position, data) ∈ found services servicePos saved) :
    ∃ name, services[position]? = some name ∧ (name, data) ∈ saved := by
  induction saved generalizing servicePos with
  | nil => cases h
  | cons service saved ih =>
    obtain ⟨name, bytes⟩ := service
    rw [found] at h
    cases hfind : findServicePositionByName services name (servicePos.elim 0 Nat.succ) with
    | none =>
      rw [hfind] at h
      obtain ⟨other, hother, hmem⟩ := ih h
      exact ⟨other, hother, List.mem_cons_of_mem _ hmem⟩
    | some place =>
      rw [hfind] at h
      obtain heq | h := List.mem_cons.mp h
      · cases heq
        exact ⟨name, getElem?_of_find hfind, List.mem_cons_self⟩
      · obtain ⟨other, hother, hmem⟩ := ih h
        exact ⟨other, hother, List.mem_cons_of_mem _ hmem⟩

theorem nodup_found (hservices : services.Nodup) (hsaved : (saved.map Prod.fst).Nodup) (servicePos : Option ℕ) :
    ((found services servicePos saved).map Prod.fst).Nodup := by
  induction saved generalizing servicePos with
  | nil => exact List.nodup_nil
  | cons service saved ih =>
    obtain ⟨name, bytes⟩ := service
    rw [List.map_cons, List.nodup_cons] at hsaved
    rw [found]
    cases hfind : findServicePositionByName services name (servicePos.elim 0 Nat.succ) with
    | none => exact ih hsaved.2 none
    | some position =>
      refine List.nodup_cons.mpr ⟨fun hmem ↦ ?_, ih hsaved.2 (some position)⟩
      exact hsaved.1 ((mem_found hservices (getElem?_of_find hfind) (some position) saved).mp hmem)

theorem lookup_of_mem (hnodup : (saved.map Prod.fst).Nodup) (h : (name, data) ∈ saved) :
    saved.lookup name = some data := by
  induction saved with
  | nil => cases h
  | cons service saved ih =>
    rw [List.map_cons, List.nodup_cons] at hnodup
    obtain rfl | h := List.mem_cons.mp h
    · rw [List.lookup_cons_self]
    · have hne : name ≠ service.1 := fun heq ↦ hnodup.1 (heq ▸ List.mem_map_of_mem h)
      rw [List.lookup_cons, beq_false_of_ne hne]
      exact ih hnodup.2 h

/-- The calls of a load, for a given order of the services without a stream. -/
def callsOf (saved : List (List UInt8 × List UInt8)) (services : List (List UInt8)) (order : List ℕ → List ℕ) :
    List (ℕ × Option (List UInt8)) :=
  (found services none saved).map (fun call ↦ (call.1, some call.2)) ++
    (order ((List.range services.length).diff ((found services none saved).map Prod.fst))).map
      fun position ↦ (position, none)

theorem matched_callsOf (hsaved : (saved.map Prod.fst).Nodup) (hservices : services.Nodup) {order : List ℕ → List ℕ}
    (horder : ∀ list, (order list).Perm list) : Matched saved services (callsOf saved services order) := by
  have hfound : ((found services none saved).map fun call ↦ (call.1, some call.2)).map Prod.fst =
      (found services none saved).map Prod.fst := by
    rw [map_map]
    rfl
  have hnodup := nodup_found hservices hsaved none
  constructor
  · have hmissing := fun list : List ℕ ↦ (map_map (f := fun position ↦ (position, (none : Option (List UInt8))))
      (g := Prod.fst) (l := list)).trans (List.map_id list)
    rw [callsOf, List.map_append, hfound, hmissing]
    refine (List.Perm.append_left _ (horder _)).trans
      (List.subperm_append_diff_self_of_count_le fun position hmem ↦ ?_)
    obtain ⟨⟨_, data⟩, hcall, rfl⟩ := mem_map.mp hmem
    obtain ⟨name, hname, -⟩ := mem_found_saved hcall
    obtain ⟨hlt, -⟩ := List.getElem?_eq_some_iff.mp hname
    exact (List.nodup_iff_count_le_one.mp hnodup _).trans (List.one_le_count_iff.mpr (List.mem_range.mpr hlt))
  · intro position data name hcall hname
    obtain hcall | hcall := List.mem_append.mp hcall
    · obtain ⟨⟨place, bytes⟩, hmem, heq⟩ := mem_map.mp hcall
      cases heq
      obtain ⟨other, hother, hdata⟩ := mem_found_saved hmem
      cases hname.symm.trans hother
      exact (lookup_of_mem hsaved hdata).symm
    · obtain ⟨place, hmem, heq⟩ := mem_map.mp hcall
      cases heq
      have hdiff := (List.Nodup.mem_sdiff_iff List.nodup_range).mp ((horder _).mem_iff.mp hmem)
      have hother : name ∉ saved.map Prod.fst := fun h ↦ hdiff.2 ((mem_found hservices hname none saved).mpr h)
      refine (List.lookup_eq_none_iff.mpr fun service hservice ↦ bne_iff_ne.mpr ?_).symm
      rintro rfl
      exact hother (List.mem_map_of_mem hservice)

theorem forEachServiceFromStream_eq {assertions : Bool} (hregistered : Registered (saved.map Prod.fst))
    (hfits : Fits saved) (haccepted : Accepted assertions saved services) (order : List ℕ → List ℕ) {Caller : Type}
    (func : Caller → ℕ → Option (List UInt8) → Caller × List UInt8) (caller : Caller) (rest : List UInt8) :
    forEachServiceFromStream assertions services func order caller (forEachServiceToStream saved ++ rest) =
      some ((callsOf saved services order).foldl (fun caller call ↦ (func caller call.1 call.2).1) caller, rest) := by
  have hcount : saved.length.toUInt16.toNat = saved.length := UInt16.toNat_ofNat_of_lt' hfits.count
  have hzero : ∀ service ∈ saved, 0 ∉ service.1 := fun service hservice ↦
    hregistered.terminated _ (List.mem_map_of_mem hservice)
  rw [forEachServiceFromStream, forEachServiceToStream, append_assoc, getBe16_putBe16]
  simp only [hcount]
  rw [loadServices_eq func hzero hfits.name hfits.data haccepted, Option.map_some, callsOf, List.foldl_append,
    List.foldl_map, List.foldl_map]

/-- The search passes every service once. -/
theorem finds_of_nodup (h : services.Nodup) : Finds services := by
  intro startPosHint _ position name hname
  obtain ⟨place, hplace⟩ := exists_find (List.mem_of_getElem? hname) startPosHint
  have hsame := getElem?_of_find hplace
  obtain ⟨hlt, -⟩ := List.getElem?_eq_some_iff.mp hname
  rw [hplace, (List.getElem?_inj hlt h).mp (hname.trans hsame.symm)]

/-- A snapshot that the format can hold gives each service its own bytes back. -/
theorem services_restored {assertions : Bool} (hsaved : Registered (saved.map Prod.fst))
    (hservices : Registered services) (hfits : Fits saved) (haccepted : Accepted assertions saved services) :
    Restores assertions saved services ∧ Finds services := by
  refine ⟨fun order horder rest ↦ ?_, finds_of_nodup hservices.nodup⟩
  exact ⟨callsOf saved services order, matched_callsOf hsaved.nodup hservices.nodup horder, fun func caller ↦
    forEachServiceFromStream_eq hsaved hfits haccepted order func caller rest⟩

/-- One service is missing, another one is new. -/
theorem services_restored_three :
    Restores true
      [([1], [10, 11]), ([2], []), ("OffworldPipe".toList.map fun letter ↦ UInt8.ofNat letter.toNat, [12])]
      [[3], [2], [1]] ∧ Finds [[3], [2], [1]] :=
  services_restored ⟨by decide, by decide⟩ ⟨by decide, by decide⟩ ⟨by decide, by decide, by decide⟩
    fun _ ↦ by decide

/-- What a single service gets, in a function that keeps it. -/
def received (assertions : Bool) (saved : List (List UInt8 × List UInt8)) (name : List UInt8) :
    Option (List (Option (List UInt8)) × List UInt8) :=
  forEachServiceFromStream assertions [name] (fun caller _ data ↦ (caller ++ [data], [])) id []
    (forEachServiceToStream saved ++ [])

theorem received_of_restores {assertions : Bool} (h : Restores assertions saved [name]) :
    received assertions saved name = some ([saved.lookup name], []) := by
  obtain ⟨calls, hmatched, hrun⟩ := h id (fun _ ↦ List.Perm.refl _) []
  have honce := hmatched.once
  rw [show List.range [name].length = [0] from rfl] at honce
  obtain ⟨⟨position, data⟩, hcalls, hposition⟩ := List.map_eq_singleton_iff.mp (List.perm_singleton.mp honce)
  obtain rfl : position = 0 := hposition
  have hdata := hmatched.own 0 data name (hcalls ▸ List.mem_singleton_self _) rfl
  rw [received, hrun, hcalls, hdata]
  rfl

/-- `2 ^ 16` services are counted as none. -/
theorem received_of_count (h : saved.length.toUInt16 = 0) (name : List UInt8) :
    ∃ rest, received false saved name = some ([none], rest) := by
  refine ⟨(saved.flatMap fun service ↦ putString service.1 ++ saveBuffer service.2) ++ [], ?_⟩
  rw [received, forEachServiceFromStream, forEachServiceToStream, h, append_assoc, getBe16_putBe16]
  rfl

theorem received_of_data (h : UInt32.ofNat data.length = 0) :
    ∃ rest, received false [([1], data)] [1] = some ([some []], rest) := by
  have hload : (loadBuffer (saveBuffer data ++ [])).2.1 = [] := by
    simp only [loadBuffer, saveBuffer, append_assoc, getBe32_putBe32, h]
    rfl
  refine ⟨(loadBuffer (saveBuffer data ++ [])).2.2, ?_⟩
  have hfind : findServicePositionByName [[1]] (c_str [1]) 0 = some 0 := rfl
  rw [received, forEachServiceFromStream, forEachServiceToStream, List.flatMap_singleton, append_assoc,
    getBe16_putBe16]
  simp only [List.length_singleton, show (Nat.toUInt16 1).toNat = 1 from rfl, loadServices, append_assoc,
    getString_putString (by decide : ([1] : List UInt8).length < 2 ^ 32), Option.elim_none, hfind, hload]
  rfl

theorem received_of_name (h : UInt32.ofNat name.length = 0) (hne : name ≠ []) :
    ∃ rest, received false [(name, [])] name = some ([none], rest) := by
  have hstring : (getString (putString name ++ (saveBuffer [] ++ []))).1 = [] := by
    simp only [getString, putString, append_assoc, getBe32_putBe32, h]
    rfl
  refine ⟨(loadBuffer (getString (putString name ++ (saveBuffer [] ++ []))).2).2.2, ?_⟩
  have hfind : findServicePositionByName [name] (c_str []) 0 = none := by
    simp [findServicePositionByName, c_str, hne]
  rw [received, forEachServiceFromStream, forEachServiceToStream, List.flatMap_singleton, append_assoc,
    getBe16_putBe16]
  simp only [List.length_singleton, show (Nat.toUInt16 1).toNat = 1 from rfl, loadServices, append_assoc,
    Option.elim_none, hstring, hfind, show isPipeOptional [] = false from rfl]
  rfl

/-- So many services that 16 bits do not count them. -/
def manyServices : List (List UInt8 × List UInt8) := (List.range (2 ^ 16)).map fun i ↦ (List.replicate (i + 1) 1, [])

theorem registered_single (h : 0 ∉ name) : Registered [name] :=
  ⟨List.nodup_singleton name, List.forall_mem_singleton.mpr h⟩

theorem registered_manyServices : Registered (manyServices.map Prod.fst) := by
  have hnames : manyServices.map Prod.fst = (List.range (2 ^ 16)).map fun i ↦ List.replicate (i + 1) 1 := by
    rw [manyServices, map_map]
    rfl
  rw [hnames]
  constructor
  · refine List.nodup_range.map fun i j heq ↦ ?_
    have hlength := congrArg List.length heq
    rw [length_replicate, length_replicate] at hlength
    exact Nat.succ.inj hlength
  · intro name hname
    obtain ⟨i, -, rfl⟩ := mem_map.mp hname
    exact fun hzero ↦ absurd (List.eq_of_mem_replicate hzero) (by decide)

/-- Services with different names at both times that do not get their bytes back. -/
def Lost (assertions : Bool) (saved : List (List UInt8 × List UInt8)) (services : List (List UInt8)) : Prop :=
  Registered (saved.map Prod.fst) ∧ Registered services ∧ ¬ Restores assertions saved services

/-- A stream that no service takes stops a program with assertions; from `2 ^ 16` services or `2 ^ 32` bytes on, a
number is cut. -/
theorem services_lost :
    Lost true [([1], [])] [[2]] ∧ Lost false manyServices [[1]] ∧
      Lost false [([1], List.replicate (2 ^ 32) 1)] [[1]] ∧
      Lost false [(List.replicate (2 ^ 32) 1, [])] [List.replicate (2 ^ 32) 1] := by
  have hcut : UInt32.ofNat (List.replicate (2 ^ 32) (1 : UInt8)).length = 0 := by
    rw [length_replicate]
    rfl
  have hone : Registered [[1]] := registered_single (by decide)
  have hlong : Registered [List.replicate (2 ^ 32) 1] :=
    registered_single fun hzero ↦ absurd (List.eq_of_mem_replicate hzero) (by decide)
  refine ⟨⟨hone, registered_single (by decide), fun h ↦ ?_⟩, ⟨registered_manyServices, hone, fun h ↦ ?_⟩,
    ⟨hone, hone, fun h ↦ ?_⟩, hlong, hlong, fun h ↦ ?_⟩
  · have hnone : received true [([1], [])] [2] = none := by decide
    rw [received_of_restores h] at hnone
    cases hnone
  · have hcount : manyServices.length.toUInt16 = 0 := by
      rw [manyServices, List.length_map, List.length_range]
      rfl
    obtain ⟨rest, hreceived⟩ := received_of_count hcount [1]
    rw [received_of_restores h] at hreceived
    have hlookup := List.singleton_inj.mp (Prod.mk.inj (Option.some.inj hreceived)).1
    have hmem : ([1], []) ∈ manyServices := mem_map.mpr ⟨0, List.mem_range.mpr (by decide), rfl⟩
    exact absurd rfl (bne_iff_ne.mp (List.lookup_eq_none_iff.mp hlookup _ hmem))
  · obtain ⟨rest, hreceived⟩ := received_of_data hcut
    rw [received_of_restores h, List.lookup_cons_self] at hreceived
    have hdata := Option.some.inj (List.singleton_inj.mp (Prod.mk.inj (Option.some.inj hreceived)).1)
    exact absurd (congrArg List.length hdata) (by rw [length_replicate]; decide)
  · have hne : List.replicate (2 ^ 32) (1 : UInt8) ≠ [] := fun heq ↦
      absurd (congrArg List.length heq) (by rw [length_replicate]; decide)
    obtain ⟨rest, hreceived⟩ := received_of_name hcut hne
    rw [received_of_restores h, List.lookup_cons_self] at hreceived
    cases List.singleton_inj.mp (Prod.mk.inj (Option.some.inj hreceived)).1

end FdeEmugl.ServiceStreams
