import FdeEmugl.Render.Decoder

/-!
# The arguments a decoder unpacks

`ApiGen::genDecoderImpl` writes the code of every op code from the list of its variables. A
variable is read at an offset that is the sum of everything before it: the bytes of a value, and
for a pointer a 32-bit size together with as many bytes as that size says. The sums are pointer
arithmetic of the host, and the only checks before them are those of the decoding loop, on the
length of the whole packet.

The reads stay inside the packet exactly when the arguments end inside it, the end being counted
from the sizes in the packet. In particular no combination of sizes wraps around to an offset inside
the packet without an earlier read that leaves it.
-/

namespace FdeEmugl.Render

/-- The hosts the renderer is built for, by the width of their pointers. -/
inductive Host where
  | bits32
  | bits64
deriving Repr, DecidableEq

def Host.addressSpace : Host → ℕ
  | .bits32 => 2 ^ 32
  | .bits64 => 2 ^ 64

variable {offset : ℕ}

theorem Host.packet_lt_addressSpace (host : Host) : 2 ^ 31 < host.addressSpace := by
  cases host <;> decide

/-- `Var::PointerDir`. -/
inductive PointerDir where
  | pointerIn
  | pointerOut
  | pointerInOut
deriving Repr, DecidableEq

/-- The test of the bit `POINTER_IN`. -/
def PointerDir.hasIn : PointerDir → Bool
  | .pointerOut => false
  | .pointerIn | .pointerInOut => true

/-- A variable of an entry point: a value of some bytes, a pointer, or a pointer into DMA memory. -/
inductive Var where
  | value (bytes : ℕ)
  | pointer (pointerDir : PointerDir)
  | dma
deriving Repr, DecidableEq

/-- The bytes from `offset` on, counted from the start of the packet. -/
structure Access where
  offset : ℕ
  size : ℕ
deriving Repr, DecidableEq

/-- Every byte of the access lies in the packet. -/
def Access.Inside (host : Host) (packetLen : ℕ) (access : Access) : Prop :=
  ∀ index < access.size, (access.offset + index) % host.addressSpace < packetLen

instance (host : Host) (packetLen : ℕ) (access : Access) :
    Decidable (access.Inside host packetLen) :=
  inferInstanceAs (Decidable (∀ index < access.size, _))

/-- `Unpack<uint32_t,uint32_t>` of a size. -/
def unpackSize (memory : ℕ → UInt8) (offset : ℕ) : ℕ :=
  (Stream.joinBe32 (memory (offset + 3)) (memory (offset + 2)) (memory (offset + 1))
    (memory offset)).toNat

/-- The statements of `PASS_VariableDeclarations` for the variables that are left: what they read.
`varoffset` is the sum written out so far. Of a DMA pointer only the address is added to it, so that
the next variable is read where the size of the DMA pointer was. -/
def variableDeclarations (host : Host) (memory : ℕ → UInt8) : ℕ → List Var → List Access
  | _, [] => []
  | varoffset, .value bytes :: vars =>
    ⟨varoffset, bytes⟩ ::
      variableDeclarations host memory ((varoffset + bytes) % host.addressSpace) vars
  | varoffset, .pointer pointerDir :: vars =>
    let size := unpackSize memory varoffset
    if pointerDir.hasIn then
      ⟨varoffset, 4⟩ :: ⟨(varoffset + 4) % host.addressSpace, size⟩ ::
        variableDeclarations host memory ((varoffset + 4 + size) % host.addressSpace) vars
    else
      ⟨varoffset, 4⟩ :: variableDeclarations host memory ((varoffset + 4) % host.addressSpace) vars
  | varoffset, .dma :: vars =>
    ⟨varoffset, 8⟩ :: ⟨(varoffset + 8) % host.addressSpace, 4⟩ ::
      variableDeclarations host memory ((varoffset + 8) % host.addressSpace) vars

/-- The host's memory from `ptr` on: the rest of the buffer, then whatever follows it. -/
def memoryFrom (buf : List UInt8) (beyond : ℕ → UInt8) (ptr : ℕ) : ℕ → UInt8 :=
  fun offset ↦ buf.getD (ptr + offset) (beyond (ptr + offset))

/-- The op codes of the `switch` of a decoder. -/
def ownsOf (entryPoints : UInt32 → Option (List Var)) (opcode : UInt32) : Bool := (entryPoints opcode).isSome

/-- What `decode` reads while it unpacks arguments, with the packet for which it does so. -/
def decodeReads (host : Host) (entryPoints : UInt32 → Option (List Var)) (buf : List UInt8)
    (beyond : ℕ → UInt8) : List (Dispatch × Access) :=
  (decode (ownsOf entryPoints) buf).2.flatMap fun dispatch ↦
    (variableDeclarations host (memoryFrom buf beyond dispatch.offset) 8
      ((entryPoints (opcode dispatch.packet)).getD [])).map fun access ↦ (dispatch, access)

/-! ## Where the arguments end -/

/-- The end of the arguments of a packet, counted from the sizes in it and without wrapping. -/
def argumentsEnd (packet : List UInt8) : ℕ → List Var → ℕ
  | offset, [] => offset
  | offset, .value bytes :: vars => argumentsEnd packet (offset + bytes) vars
  | offset, .pointer pointerDir :: vars =>
    if pointerDir.hasIn then argumentsEnd packet (offset + 4 + (word packet offset).toNat) vars
    else argumentsEnd packet (offset + 4) vars
  | offset, .dma :: vars => max (offset + 12) (argumentsEnd packet (offset + 8) vars)

/-- The arguments of the packet end inside it. -/
def ArgumentsFit (entryPoints : UInt32 → Option (List Var)) (packet : Packet) : Prop :=
  argumentsEnd packet.bytes 8 ((entryPoints (opcode packet.bytes)).getD []) ≤ packet.bytes.length

theorem le_argumentsEnd (packet : List UInt8) (offset : ℕ) (vars : List Var) :
    offset ≤ argumentsEnd packet offset vars := by
  induction vars generalizing offset with
  | nil => exact le_rfl
  | cons var vars ih =>
    cases var with
    | value bytes =>
      calc offset ≤ offset + bytes := Nat.le_add_right _ _
        _ ≤ _ := ih _
    | pointer pointerDir =>
      simp only [argumentsEnd]
      split_ifs
      · calc offset ≤ offset + 4 + (word packet offset).toNat := by omega
          _ ≤ _ := ih _
      · calc offset ≤ offset + 4 := Nat.le_add_right _ _
          _ ≤ _ := ih _
    | dma =>
      calc offset ≤ offset + 12 := Nat.le_add_right _ _
        _ ≤ _ := le_max_left _ _

/-- A non-empty access that starts inside the packet or at its end is inside exactly when it ends
there: the last byte decides, and before it the first byte past the packet. -/
theorem inside_iff {host : Host} {packetLen size : ℕ} (hpacket : packetLen ≤ 2 ^ 31) (hoffset : offset ≤ packetLen) :
    Access.Inside host packetLen ⟨offset, size⟩ ↔ offset + size ≤ packetLen := by
  have hspace := host.packet_lt_addressSpace
  constructor
  · intro hinside
    by_contra hend
    have hlast := hinside (packetLen - offset) (by simp only; omega)
    rw [show offset + (packetLen - offset) = packetLen by omega, Nat.mod_eq_of_lt (by omega)] at hlast
    exact lt_irrefl _ hlast
  · intro hend index hindex
    simp only at hindex ⊢
    rw [Nat.mod_eq_of_lt (by omega)]
    omega

/-- A size field inside the packet is the same in memory. -/
theorem unpackSize_eq {packet : List UInt8} {memory : ℕ → UInt8}
    (hmemory : ∀ index < packet.length, memory index = packet.getD index 0) (h : offset + 4 ≤ packet.length) :
    unpackSize memory offset = (word packet offset).toNat := by
  rw [unpackSize, word, hmemory _ (by omega), hmemory _ (by omega), hmemory _ (by omega), hmemory _ (by omega)]

/-- One packet: by induction on the variables, as long as all reads so far were inside nothing
wrapped, and the first one that leaves the packet is at the first argument that does. -/
theorem variableDeclarations_inside_iff {host : Host} {packet : List UInt8} {memory : ℕ → UInt8}
    (hpacket : packet.length ≤ 2 ^ 31) (hmemory : ∀ index < packet.length, memory index = packet.getD index 0)
    (hoffset : offset ≤ packet.length) (vars : List Var) :
    (∀ access ∈ variableDeclarations host memory offset vars, access.Inside host packet.length) ↔
      argumentsEnd packet offset vars ≤ packet.length := by
  have hspace := host.packet_lt_addressSpace
  have hmod {next : ℕ} (h : next ≤ packet.length) : next % host.addressSpace = next := Nat.mod_eq_of_lt (by omega)
  induction vars generalizing offset with
  | nil => simpa [variableDeclarations, argumentsEnd] using hoffset
  | cons var vars ih =>
    cases var with
    | value bytes =>
      simp only [variableDeclarations, argumentsEnd, List.forall_mem_cons]
      rw [inside_iff hpacket hoffset]
      by_cases hend : offset + bytes ≤ packet.length
      · simp only [hmod hend, ih hend, hend, true_and]
      · have hle := le_argumentsEnd packet (offset + bytes) vars
        simp only [hend, false_and, false_iff]
        omega
    | pointer pointerDir =>
      by_cases hend : offset + 4 ≤ packet.length
      · simp only [variableDeclarations, argumentsEnd, unpackSize_eq hmemory hend, hmod hend]
        split_ifs
        · simp only [List.forall_mem_cons]
          rw [inside_iff hpacket hoffset, inside_iff hpacket hend]
          by_cases hbytes : offset + 4 + (word packet offset).toNat ≤ packet.length
          · simp only [hmod hbytes, ih hbytes, hend, hbytes, true_and]
          · have hle := le_argumentsEnd packet (offset + 4 + (word packet offset).toNat) vars
            simp only [hbytes, false_and, and_false, false_iff]
            omega
        · simp only [List.forall_mem_cons]
          rw [inside_iff hpacket hoffset]
          simp only [ih hend, hend, true_and]
      · -- the size field itself leaves the packet, whatever the rest of the memory holds
        have hleaves : ¬ Access.Inside host packet.length ⟨offset, 4⟩ := by
          rwa [inside_iff hpacket hoffset]
        have hfirst : (⟨offset, 4⟩ : Access) ∈
            variableDeclarations host memory offset (.pointer pointerDir :: vars) := by
          simp only [variableDeclarations]
          split_ifs <;> exact List.mem_cons_self
        have hlate : packet.length < argumentsEnd packet offset (.pointer pointerDir :: vars) := by
          simp only [argumentsEnd]
          split_ifs
          · have hle := le_argumentsEnd packet (offset + 4 + (word packet offset).toNat) vars
            omega
          · have hle := le_argumentsEnd packet (offset + 4) vars
            omega
        exact iff_of_false (fun hall ↦ hleaves (hall _ hfirst)) (by omega)
    | dma =>
      simp only [variableDeclarations, argumentsEnd, List.forall_mem_cons, Nat.max_le]
      rw [inside_iff hpacket hoffset]
      by_cases hend : offset + 8 ≤ packet.length
      · rw [hmod hend, inside_iff hpacket hend]
        simp only [ih hend, hend, true_and]
      · have hle := le_argumentsEnd packet (offset + 8) vars
        simp only [hend, false_and, false_iff]
        omega

/-! ## Whole buffers -/

theorem length_packet_le (packet : Packet) : packet.bytes.length ≤ 2 ^ 31 := by
  have hlength := packet.packetLen_eq
  have hlt := Int32.toInt_lt (word packet.bytes 4).toInt32
  rw [packetLen] at hlength
  omega

/-- Around a packet that lies at `base` in the buffer, memory shows the packet. -/
theorem memoryFrom_append (before : List UInt8) (packet after : List UInt8) (beyond : ℕ → UInt8)
    {index : ℕ} (h : index < packet.length) :
    memoryFrom (before ++ (packet ++ after)) beyond before.length index = packet.getD index 0 := by
  rw [memoryFrom, List.getD_append_right _ _ _ _ (Nat.le_add_right _ _), Nat.add_sub_cancel_left,
    List.getD_append _ _ _ _ h, List.getD_eq_getElem _ _ h, List.getD_eq_getElem _ _ h]

/-- A packet among those dispatched, and where it lies in their bytes. -/
theorem exists_of_mem_dispatches {packets : List Packet} {dispatch : Dispatch}
    (h : dispatch ∈ dispatches offset packets) :
    ∃ before packet after, packets = before ++ packet :: after ∧
      dispatch = ⟨offset + (bytesOf before).length, packet.bytes⟩ := by
  induction packets generalizing offset with
  | nil => simp [dispatches] at h
  | cons packet packets ih =>
    obtain rfl | hrest := List.mem_cons.mp h
    · exact ⟨[], packet, packets, rfl, rfl⟩
    · obtain ⟨before, found, after, rfl, rfl⟩ := ih hrest
      refine ⟨packet :: before, found, after, rfl, ?_⟩
      simp [Nat.add_assoc]

theorem mem_dispatches (before : List Packet) (packet : Packet) (after : List Packet) :
    (⟨offset + (bytesOf before).length, packet.bytes⟩ : Dispatch) ∈
      dispatches offset (before ++ packet :: after) := by
  rw [dispatches_append]
  exact List.mem_append_right _ List.mem_cons_self

/-- The reads for one of the dispatched packets are inside it exactly when its arguments fit. -/
theorem dispatch_inside_iff (host : Host) (entryPoints : UInt32 → Option (List Var))
    (beyond : ℕ → UInt8) (before : List Packet) (packet : Packet) (after : List UInt8) :
    (∀ access ∈ variableDeclarations host
        (memoryFrom (bytesOf before ++ (packet.bytes ++ after)) beyond (bytesOf before).length) 8
        ((entryPoints (opcode packet.bytes)).getD []),
        access.Inside host packet.bytes.length) ↔ ArgumentsFit entryPoints packet :=
  variableDeclarations_inside_iff (length_packet_le packet)
    (fun _ hindex ↦ memoryFrom_append _ _ _ _ hindex) packet.header_le _

/-- A buffer is complete packets and a tail at which the loop stops. While `decode` unpacks
arguments it reads only inside the packet at hand if and only if the arguments of every packet it
takes end inside that packet: it does not compare the sizes in the packet with its length. -/
theorem decode_reads_inside_iff (host : Host) (entryPoints : UInt32 → Option (List Var))
    (packets : List Packet) (tail : List UInt8) (beyond : ℕ → UInt8) (h : Stops tail) :
    (∀ read ∈ decodeReads host entryPoints (bytesOf packets ++ tail) beyond,
        read.2.Inside host read.1.packet.length) ↔
      ∀ packet ∈ taken (ownsOf entryPoints) packets, ArgumentsFit entryPoints packet := by
  have hsplit := taken_append_leftOver (ownsOf entryPoints) packets
  have hbuf (before : List Packet) (packet : Packet) (after : List Packet)
      (htaken : taken (ownsOf entryPoints) packets = before ++ packet :: after) :
      bytesOf packets ++ tail = bytesOf before ++ (packet.bytes ++
        (bytesOf after ++ (bytesOf (leftOver (ownsOf entryPoints) packets) ++ tail))) := by
    conv_lhs => rw [← hsplit, htaken]
    simp only [bytesOf_append, bytesOf_cons, List.append_assoc]
  have hmem (read : Dispatch × Access) :
      read ∈ decodeReads host entryPoints (bytesOf packets ++ tail) beyond ↔
        read.1 ∈ dispatches 0 (taken (ownsOf entryPoints) packets) ∧
          read.2 ∈ variableDeclarations host
            (memoryFrom (bytesOf packets ++ tail) beyond read.1.offset) 8
            ((entryPoints (opcode read.1.packet)).getD []) := by
    simp only [decodeReads, decode_packets _ h, List.mem_flatMap, List.mem_map]
    constructor
    · rintro ⟨dispatch, hdispatch, access, haccess, rfl⟩
      exact ⟨hdispatch, haccess⟩
    · intro hread
      exact ⟨read.1, hread.1, read.2, hread.2, rfl⟩
  constructor
  · intro hinside packet hpacket
    obtain ⟨before, after, htaken⟩ := List.append_of_mem hpacket
    rw [← dispatch_inside_iff host entryPoints beyond before packet, ← hbuf before packet after htaken]
    intro access haccess
    refine hinside (⟨(bytesOf before).length, packet.bytes⟩, access) ((hmem _).mpr ⟨?_, haccess⟩)
    rw [htaken, ← Nat.zero_add (bytesOf before).length]
    exact mem_dispatches before packet after
  · intro hfit read hread
    obtain ⟨hdispatch, haccess⟩ := (hmem read).mp hread
    obtain ⟨before, packet, after, htaken, hwhere⟩ := exists_of_mem_dispatches hdispatch
    have hpacket : packet ∈ taken (ownsOf entryPoints) packets := by
      rw [htaken]
      exact List.mem_append_right _ List.mem_cons_self
    rw [hwhere, Nat.zero_add, hbuf before packet after htaken] at haccess
    rw [hwhere]
    exact (dispatch_inside_iff host entryPoints beyond before packet _).mpr (hfit packet hpacket)
      _ haccess

/-! ## `rcChooseConfig` -/

/-- `OP_rcChooseConfig`: the attributes, their size, room for the configurations and its size. -/
def rcChooseConfig (opcode : UInt32) : Option (List Var) :=
  if opcode = 10006 then
    some [.pointer .pointerIn, .value 4, .pointer .pointerOut, .value 4]
  else none

/-- A packet of `rcChooseConfig` of 28 bytes that carries one attribute of 4 bytes. -/
def chooseConfigPacket (size_attribs : UInt8) : List UInt8 :=
  [0x16, 0x27, 0, 0, 28, 0, 0, 0, size_attribs, 0, 0, 0, 0, 0, 0, 0, 1, 0, 0, 0, 4, 0, 0, 0, 1, 0, 0, 0]

theorem decode_reads_inside_chooseConfig :
    Stops [] ∧ ∀ read ∈ decodeReads .bits64 rcChooseConfig
        (bytesOf [⟨chooseConfigPacket 4, by decide, by decide⟩] ++ []) (fun _ ↦ 0),
      read.2.Inside .bits64 read.1.packet.length := by
  have hstops : Stops [] := Or.inl (by decide)
  refine ⟨hstops, (decode_reads_inside_iff _ _ _ _ _ hstops).mpr ?_⟩
  intro packet hpacket
  have hmem := (List.takeWhile_sublist _).mem hpacket
  rw [List.mem_singleton] at hmem
  rw [hmem, ArgumentsFit]
  decide +kernel

/-- A complete packet of the right length whose first size says 255: the attributes and all later
arguments are read past its end. -/
theorem chooseConfig_reads_outside :
    8 ≤ packetLen (chooseConfigPacket 255) ∧
      packetLen (chooseConfigPacket 255) ≤ (chooseConfigPacket 255).length ∧
      ¬ ∀ read ∈ decodeReads .bits64 rcChooseConfig (chooseConfigPacket 255) (fun _ ↦ 0),
        read.2.Inside .bits64 read.1.packet.length := by
  decide +kernel

end FdeEmugl.Render
