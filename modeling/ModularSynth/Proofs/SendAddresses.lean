-- The addresses that sends are compiled to, taken apart again. An address keeps the voice,
-- the port and the pop bit it was made of, but only five of the six bits that the place of a
-- unit takes up.
import Mathlib.Data.Nat.Bitwise
import ModularSynth.Proofs.UnitRuns
import ModularSynth.Bytecode.Assembly

namespace ModularSynth

namespace SendAddress

/-! ## The fields of an address as numbers -/

theorem isGlobal_iff (a : SendAddress) : a.isGlobal = true ↔ 32768 ≤ a.toNat := by
  unfold isGlobal globalBit
  rw [bne_iff_ne, ne_eq, ← UInt16.toNat_inj, UInt16.toNat_and,
    show (0x8000 : UInt16).toNat = 2 ^ 15 from rfl, Nat.and_two_pow, Nat.testBit_eq_decide_div_mod_eq]
  have := a.toNat_lt
  simp
  omega

theorem pops_iff (a : SendAddress) : a.pops = true ↔ a.toNat / 8 % 2 = 1 := by
  unfold pops popBit
  rw [bne_iff_ne, ne_eq, ← UInt16.toNat_inj, UInt16.toNat_and,
    show (0x8 : UInt16).toNat = 2 ^ 3 from rfl, Nat.and_two_pow, Nat.testBit_eq_decide_div_mod_eq]
  simp

theorem inner_toNat (a : SendAddress) :
    a.inner.toNat = if 32768 ≤ a.toNat then (a.toNat + 32752) % 65536 else a.toNat := by
  unfold inner
  by_cases h : 32768 ≤ a.toNat
  · rw [if_pos ((isGlobal_iff a).mpr h), if_pos h, UInt16.toNat_sub]
    rw [show globalBase.toNat = 32784 from rfl]
    omega
  · rw [if_neg (fun g => h ((isGlobal_iff a).mp g)), if_neg h]

theorem place_eq (a : SendAddress) : a.place = a.inner.toNat / 16 % 32 := by
  unfold place
  rw [UInt16.toNat_shiftRight, UInt16.toNat_and, Nat.shiftRight_and_distrib,
    show (4 : UInt16).toNat % 16 = 4 from rfl,
    show (0x1F0 : UInt16).toNat >>> 4 = 2 ^ 5 - 1 from rfl, Nat.and_two_pow_sub_one_eq_mod,
    Nat.shiftRight_eq_div_pow]

theorem port_eq (a : SendAddress) : a.port = a.inner.toNat % 8 := by
  unfold port
  rw [UInt16.toNat_and, show (7 : UInt16).toNat = 2 ^ 3 - 1 from rfl,
    Nat.and_two_pow_sub_one_eq_mod]

/-- The port of an address is in its last bits, whether or not it names a voice. -/
theorem port_eq_mod (a : SendAddress) : a.port = a.toNat % 8 := by
  rw [port_eq, inner_toNat]
  split <;> omega

theorem voice?_eq (a : SendAddress) :
    a.voice? = if 32768 ≤ a.toNat then some (a.inner.toNat / 1024) else none := by
  unfold voice?
  by_cases h : 32768 ≤ a.toNat
  · rw [if_pos ((isGlobal_iff a).mpr h), if_pos h, UInt16.toNat_shiftRight,
      show (10 : UInt16).toNat % 16 = 10 from rfl, Nat.shiftRight_eq_div_pow]
  · rw [if_neg (fun g => h ((isGlobal_iff a).mp g)), if_neg h]

/-! ## Addresses that are made of fields -/

/-- What an address within a voice says. -/
theorem fields_of_local {a : SendAddress} {slot port pop : Nat} (hs : slot < 63) (hp : port < 8)
    (hpop : pop ≤ 1) (ha : a.toNat = (slot + 1) * 16 + port + 8 * pop) :
    a.voice? = none ∧ a.place = (slot + 1) % 32 ∧ a.port = port ∧ (a.pops = true ↔ pop = 1) := by
  rw [voice?_eq, place_eq, port_eq, pops_iff, inner_toNat]
  refine ⟨if_neg (by omega), ?_, ?_, by omega⟩ <;>
  · rw [if_neg (by omega)]
    omega

/-- What an address that names a voice says. There is one such address too many for sixteen
bits, that of the last place of the last voice: it says that it belongs to no unit. -/
theorem fields_of_global {a : SendAddress} {voice slot port pop : Nat} (hv : voice < 32)
    (hs : slot < 63) (hp : port < 8) (hpop : pop ≤ 1)
    (ha : a.toNat = (32768 + voice * 1024 + (slot + 2) * 16 + port + 8 * pop) % 65536) :
    if voice = 31 ∧ slot = 62 then a.place = 0
    else a.voice? = some voice ∧ a.place = (slot + 1) % 32 ∧ a.port = port ∧
      (a.pops = true ↔ pop = 1) := by
  rw [voice?_eq, place_eq, port_eq, pops_iff, inner_toNat]
  split
  · rw [if_neg (by omega)]
    omega
  · refine ⟨?_, ?_, ?_, by omega⟩
    · rw [if_pos (by omega), if_pos (by omega), Option.some_inj]
      omega
    · rw [if_pos (by omega)]
      omega
    · rw [if_pos (by omega)]
      omega

/-! ## Bytes -/

/-- An address is read back from its bytes. -/
theorem of_bytes (a : SendAddress) :
    a.toUInt8.toUInt16 ||| (a >>> 8).toUInt8.toUInt16 <<< 8 = a := by
  have := a.toNat_lt
  rw [← UInt16.toNat_inj, UInt16.toNat_or, UInt16.toNat_shiftLeft, UInt8.toNat_toUInt16,
    UInt8.toNat_toUInt16, UInt16.toNat_toUInt8, UInt16.toNat_toUInt8, UInt16.toNat_shiftRight,
    show (8 : UInt16).toNat % 16 = 8 from rfl, Nat.shiftRight_eq_div_pow, Nat.shiftLeft_eq,
    Nat.or_comm, Nat.mod_eq_of_lt (by omega), Nat.mul_comm,
    ← Nat.two_pow_add_eq_or_of_lt (by omega)]
  omega

end SendAddress

/-! ## The addresses of sends -/

namespace UnitLabel

theorem localAddress_toNat {l : UnitLabel} (h : l.slot ≤ 63) :
    l.localAddress.toNat = (l.slot + 1) * 16 := by
  unfold localAddress
  rw [Nat.toUInt16, UInt16.toNat_ofNat', Nat.mod_eq_of_lt (by omega)]

theorem globalAddress_toNat {l : UnitLabel} (h : l.slot ≤ 63) :
    l.globalAddress.toNat = ((l.slot + 2) * 16 + l.firstVoice * 1024) % 65536 := by
  unfold globalAddress
  rw [UInt16.toNat_add, UInt16.toNat_add, UInt16.toNat_mul, localAddress_toNat h, Nat.toUInt16,
    UInt16.toNat_ofNat', show (16 : UInt16).toNat = 16 from rfl,
    show SendAddress.voiceStride.toNat = 1024 from rfl]
  omega

end UnitLabel

namespace Assembly

theorem sendPort_toNat (u : PatchUnit) : (sendPort u).toNat = (u.param "port" % 8).toNat := by
  unfold sendPort UInt16.ofInt
  simp
  omega

/-- Does the send take its signal off the stack? -/
def popsSignal (u : PatchUnit) : Nat :=
  if u.param "sendpop" = 1 then 1 else 0

theorem popsSignal_le (u : PatchUnit) : popsSignal u ≤ 1 := by
  unfold popsSignal
  split <;> decide

theorem sendPop_toNat (u : PatchUnit) : (sendPop u).toNat = 8 * popsSignal u := by
  unfold sendPop popsSignal
  split <;> rfl

/-- The address of a send within its voice. -/
theorem localTarget_toNat (u : PatchUnit) {l : UnitLabel} (h : l.slot ≤ 63) :
    (sendPort u + sendPop u + l.localAddress).toNat =
      (l.slot + 1) * 16 + (u.param "port" % 8).toNat + 8 * popsSignal u := by
  have := popsSignal_le u
  rw [UInt16.toNat_add, UInt16.toNat_add, sendPort_toNat, sendPop_toNat, l.localAddress_toNat h]
  omega

/-- The address of a send to a voice of an instrument. -/
theorem globalTarget_toNat (u : PatchUnit) {l : UnitLabel} (h : l.slot ≤ 63) (voice : Nat)
    {pop : UInt16} {popped : Nat} (hp : pop.toNat = 8 * popped) :
    (sendPort u + SendAddress.globalBit + voice.toUInt16 * SendAddress.voiceStride + pop +
        l.globalAddress).toNat =
      (32768 + (l.firstVoice + voice) * 1024 + (l.slot + 2) * 16 + (u.param "port" % 8).toNat +
        8 * popped) % 65536 := by
  rw [UInt16.toNat_add, UInt16.toNat_add, UInt16.toNat_add, UInt16.toNat_add, UInt16.toNat_mul,
    sendPort_toNat, hp, l.globalAddress_toNat h, Nat.toUInt16, UInt16.toNat_ofNat',
    show SendAddress.globalBit.toNat = 32768 from rfl,
    show SendAddress.voiceStride.toNat = 1024 from rfl]
  omega

end Assembly

end ModularSynth
