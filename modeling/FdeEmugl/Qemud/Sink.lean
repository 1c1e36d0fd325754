import Mathlib.Data.Nat.Bitwise
import Mathlib.Tactic.Positivity
import Mathlib.Tactic.Ring
import FdeEmugl.Base.Stream
import FdeEmugl.Library.Overwrite

/-!
# Hexadecimal numbers and sinks

Both ends of the qemud protocol write lengths and channels as hexadecimal digits and collect what they read
in sinks, which may be filled piece by piece.
-/

namespace FdeEmugl.Qemud

open Overwrite FdeEmugl.Stream

/-! ## Numbers -/

def hexdigit (c : UInt8) : Option ℕ :=
  if 48 ≤ c.toNat ∧ c.toNat < 58 then some (c.toNat - 48)
  else if 97 ≤ c.toNat ∧ c.toNat < 103 then some (c.toNat - 97 + 10)
  else if 65 ≤ c.toNat ∧ c.toNat < 71 then some (c.toNat - 65 + 10)
  else none

def hex2intFrom (result : ℕ) : List UInt8 → ℤ
  | [] => result
  | digit :: hex =>
    match hexdigit digit with
    | none => -1
    | some c => hex2intFrom (result <<< 4 ||| c) hex

/-- At most four digits are read, which an `int` can hold. -/
def hex2int (hex : List UInt8) : ℤ := hex2intFrom 0 hex

def hexchars : List UInt8 := [48, 49, 50, 51, 52, 53, 54, 55, 56, 57, 97, 98, 99, 100, 101, 102]

def int2hex : ℕ → ℕ → List UInt8
  | 0, _ => []
  | len + 1, val => hexchars.getD (val >>> (len * 4) &&& 15) 0 :: int2hex len val

@[simp] theorem length_int2hex (len val : ℕ) : (int2hex len val).length = len := by
  induction len with
  | zero => rfl
  | succ len ih => rw [int2hex, List.length_cons, ih]

theorem hexdigit_lt {c : UInt8} {digit : ℕ} (h : hexdigit c = some digit) : digit < 16 := by
  unfold hexdigit at h
  split_ifs at h <;> cases h <;> omega

theorem hexdigit_hexchars : ∀ digit < 16, hexdigit (hexchars.getD digit 0) = some digit := by
  decide

theorem shift_or {digit : ℕ} (result : ℕ) (h : digit < 16) : result <<< 4 ||| digit = result * 16 + digit := by
  rw [← Nat.shiftLeft_add_eq_or_of_lt (i := 4) h, Nat.shiftLeft_eq]

theorem hex2intFrom_lt (hex : List UInt8) (result : ℕ) :
    -1 ≤ hex2intFrom result hex ∧ hex2intFrom result hex < (result + 1) * 16 ^ hex.length := by
  induction hex generalizing result with
  | nil =>
    simp only [hex2intFrom, List.length_nil, pow_zero, mul_one]
    omega
  | cons digit hex ih =>
    simp only [hex2intFrom]
    split
    · have hpos : (0 : ℤ) < (result + 1) * 16 ^ (digit :: hex).length := by positivity
      omega
    · rename_i c hdigit
      have hlt := hexdigit_lt hdigit
      obtain ⟨hlow, hhigh⟩ := ih (result <<< 4 ||| c)
      rw [shift_or result hlt] at hlow hhigh ⊢
      refine ⟨hlow, hhigh.trans_le ?_⟩
      have hbase : ((result * 16 + c : ℕ) : ℤ) + 1 ≤ (result + 1) * 16 := by
        push_cast
        omega
      have hpow : (0 : ℤ) ≤ 16 ^ hex.length := by positivity
      calc ((result * 16 + c : ℕ) + 1 : ℤ) * 16 ^ hex.length ≤ (result + 1) * 16 * 16 ^ hex.length :=
            mul_le_mul_of_nonneg_right hbase hpow
        _ = (result + 1) * 16 ^ (digit :: hex).length := by rw [List.length_cons, pow_succ', mul_assoc]

theorem hex2int_lt (hex : List UInt8) : -1 ≤ hex2int hex ∧ hex2int hex < 16 ^ hex.length := by
  obtain ⟨hlow, hhigh⟩ := hex2intFrom_lt hex 0
  rw [Nat.cast_zero, zero_add, one_mul] at hhigh
  exact ⟨hlow, hhigh⟩

theorem hex2intFrom_int2hex (len val result : ℕ) :
    hex2intFrom result (int2hex len val) = (result * 16 ^ len + val % 16 ^ len : ℕ) := by
  induction len generalizing result with
  | zero => simp only [int2hex, hex2intFrom, pow_zero, mul_one, Nat.mod_one, add_zero]
  | succ len ih =>
    have hand : val >>> (len * 4) &&& 15 = val / 16 ^ len % 16 := by
      have hmask := Nat.and_two_pow_sub_one_eq_mod (val >>> (len * 4)) 4
      have hpow : 2 ^ (len * 4) = 16 ^ len := by
        rw [mul_comm, pow_mul]
        rfl
      rw [Nat.shiftRight_eq_div_pow, hpow] at hmask ⊢
      exact hmask
    have hlt : val / 16 ^ len % 16 < 16 := Nat.mod_lt _ (by decide)
    simp only [int2hex, hex2intFrom, hand, hexdigit_hexchars _ hlt]
    rw [ih, shift_or result hlt, pow_succ, Nat.mod_mul]
    congr 1
    ring

/-- What is written is read. -/
theorem hex2int_int2hex {len val : ℕ} (h : val < 16 ^ len) : hex2int (int2hex len val) = val := by
  rw [hex2int, hex2intFrom_int2hex, Nat.zero_mul, Nat.zero_add, Nat.mod_eq_of_lt h]

/-! ## Streams -/

def stream_put_be32 (value : ℤ) : List UInt8 := putBe32 (UInt32.ofNat (value % 2 ^ 32).toNat)

def stream_get_be32 (stream : List UInt8) : ℤ × List UInt8 :=
  (((getBe32 stream).1.toNat : ℤ).bmod (2 ^ 32), (getBe32 stream).2)

theorem stream_get_be32_put_be32 (value : ℤ) (hlow : -2 ^ 31 ≤ value) (hhigh : value < 2 ^ 31) (rest : List UInt8) :
    stream_get_be32 (stream_put_be32 value ++ rest) = (value, rest) := by
  have hsize : UInt32.size = 2 ^ 32 := rfl
  have hnat : ((UInt32.ofNat (value % 2 ^ 32).toNat).toNat : ℤ) = value % 2 ^ 32 := by
    rw [UInt32.toNat_ofNat_of_lt' (by omega)]
    omega
  have hvalue : (value % 2 ^ 32).bmod (2 ^ 32) = value := by
    have hmod := Int.emod_bmod (x := value) (n := 2 ^ 32)
    have hsmall : value.bmod (2 ^ 32) = value := by apply Int.bmod_eq_of_le <;> omega
    exact hmod.trans hsmall
  unfold stream_get_be32 stream_put_be32
  rw [getBe32_putBe32, hnat, hvalue]

/-! ## Sinks -/

/-- How the loop of a receiver goes on after the header. -/
inductive Turn where
  | leave
  | next
  | payload
deriving DecidableEq

structure QemudSink where
  used : ℕ
  size : ℕ
deriving DecidableEq

namespace QemudSink

def reset (size : ℕ) : QemudSink := ⟨0, size⟩

def needed (ss : QemudSink) : ℕ := ss.size - ss.used

def save (s : QemudSink) : List UInt8 := stream_put_be32 s.used ++ stream_put_be32 s.size

def load (stream : List UInt8) : QemudSink × List UInt8 :=
  let (used, stream) := stream_get_be32 stream
  let (size, stream) := stream_get_be32 stream
  (⟨used.toNat, size.toNat⟩, stream)

/-- Whether the sink is full then; the sink, its buffer and the rest of the message. -/
def fill (ss : QemudSink) (buff msg : List UInt8) : Bool × QemudSink × List UInt8 × List UInt8 :=
  if ss.size - ss.used = 0 then (true, ss, buff, msg)
  else
    let avail := min (ss.size - ss.used) msg.length
    (ss.used + avail = ss.size, { ss with used := ss.used + avail }, overwrite buff ss.used (msg.take avail),
      msg.drop avail)

variable {ss : QemudSink} {buff msg : List UInt8}

theorem load_save (ss : QemudSink) (hused : ss.used < 2 ^ 31) (hsize : ss.size < 2 ^ 31) (rest : List UInt8) :
    load (ss.save ++ rest) = (ss, rest) := by
  have husedInt := stream_get_be32_put_be32 ss.used (by omega) (by omega)
  have hsizeInt := stream_get_be32_put_be32 ss.size (by omega) (by omega)
  unfold load save
  simp only [List.append_assoc, husedInt, hsizeInt, Int.toNat_natCast]

/-- The message does not fill the sink. -/
theorem fill_part (hsize : ss.size ≤ buff.length) (h : ss.used + msg.length < ss.size) :
    ∃ filled, ss.fill buff msg = (false, ⟨ss.used + msg.length, ss.size⟩, filled, []) ∧
      filled.length = buff.length ∧ filled.take (ss.used + msg.length) = buff.take ss.used ++ msg := by
  have hroom : ¬ss.size - ss.used = 0 := by omega
  have havail : min (ss.size - ss.used) msg.length = msg.length := by omega
  refine ⟨overwrite buff ss.used msg, ?_, length_overwrite (by omega), take_overwrite msg (by omega)⟩
  have hmore : decide (ss.used + msg.length = ss.size) = false := decide_eq_false (by omega)
  simp only [fill, if_neg hroom, havail, hmore, List.take_length, List.drop_length]

/-- The message fills the sink. -/
theorem fill_whole (hsize : ss.size ≤ buff.length) (hused : ss.used < ss.size) (h : ss.size ≤ ss.used + msg.length) :
    ∃ filled, ss.fill buff msg = (true, ⟨ss.size, ss.size⟩, filled, msg.drop (ss.size - ss.used)) ∧
      filled.length = buff.length ∧ filled.take ss.size = buff.take ss.used ++ msg.take (ss.size - ss.used) := by
  have hroom : ¬ss.size - ss.used = 0 := by omega
  have havail : min (ss.size - ss.used) msg.length = ss.size - ss.used := by omega
  have hall : ss.used + (ss.size - ss.used) = ss.size := by omega
  have hpiece : (msg.take (ss.size - ss.used)).length = ss.size - ss.used := List.length_take_of_le (by omega)
  refine ⟨overwrite buff ss.used (msg.take (ss.size - ss.used)), ?_, length_overwrite (by omega), ?_⟩
  · simp only [fill, if_neg hroom, havail, hall, decide_true]
  · have hposition : ss.used ≤ buff.length := by omega
    have htake := take_overwrite (msg.take (ss.size - ss.used)) hposition
    rwa [hpiece, hall] at htake

/-- There is nothing to fill. -/
theorem fill_done (h : ss.size ≤ ss.used) : ss.fill buff msg = (true, ss, buff, msg) :=
  if_pos (Nat.sub_eq_zero_of_le h)

end QemudSink

end FdeEmugl.Qemud
