import Turtle.Lib.Bits
import Turtle.Platforms

/-!
# Atomics and the address map

Memory refuses an atomic that starts or ends in a device and lets the RAM answer any
other. The list of devices in `device_address` is written out by hand and has no PLIC.
-/

namespace Turtle

open Bits

namespace Memory

variable {δ : Type} {devices : List (Device δ)} {m : Memory δ} {din : DmemIn}

/-- A request of an `LR.W`, an `SC.W` or an AMO at an aligned address. -/
structure IsAtomicWord (din : DmemIn) : Prop where
  ack : din.dmemReqAck = true
  amo : din.dmemIsAmo = true
  size : din.dmemSize = 4
  op : din.dmemAmoop ≤ 10
  aligned : din.dmemAddr.toNat % 4 = 0

/-- Memory refuses the request and keeps its state: the segments of the RAM, the reservations
and the registers of the devices. -/
structure Refuses (devices : List (Device δ)) (m : Memory δ) (din : DmemIn) : Prop where
  ack : (memAccess devices m din).1.memRspAck = true
  fault : (memAccess devices m din).1.memRspFault ≠ 0
  unread : (memAccess devices m din).2 = m
  unwritten : updateMemory devices (memAccess devices m din).2 din (memAccess devices m din).1 = m

/-- Memory answers the request. -/
structure Answers (devices : List (Device δ)) (m : Memory δ) (din : DmemIn) : Prop where
  ack : (memAccess devices m din).1.memRspAck = true
  fault : (memAccess devices m din).1.memRspFault = 0

theorem IsAtomicWord.and_three (h : IsAtomicWord din) : din.dmemAddr &&& 3 = 0 := by
  apply BitVec.eq_of_toNat_eq
  rw [and_ones_toNat _ 3 (n := 2) rfl]
  exact h.aligned

/-- An atomic that starts or ends in a device of the list is refused. -/
theorem IsAtomicWord.refuses (h : IsAtomicWord din)
    (hdev : deviceAddress din.dmemAddr din.dmemSize = true) : Refuses devices m din := by
  have hanswer : memAccess devices m din =
      ({ memRspAck := true, memRspRdata := 0, memRspFault := 1 }, m) := by
    unfold memAccess
    rw [if_pos h.ack, h.amo, h.and_three, if_pos (by decide), if_pos hdev]
  constructor
  · rw [hanswer]
  · have hone : (1 : BitVec 8) ≠ 0 := by decide
    rwa [hanswer]
  · rw [hanswer]
  · have hone : (1 : BitVec 8) ≠ 0 := by decide
    rw [hanswer]
    exact updateMemory_of_not_applies fun happlies => hone happlies.2.1

/-- Any other atomic is answered. -/
theorem IsAtomicWord.answers (h : IsAtomicWord din)
    (hdev : deviceAddress din.dmemAddr din.dmemSize = false) : Answers devices m din := by
  refine ⟨memAccess_ack.trans h.ack, ?_⟩
  unfold memAccess
  rw [if_pos h.ack, h.amo, h.and_three, if_pos (by decide), hdev, if_neg Bool.false_ne_true]
  split <;> rfl

/-- The addresses at which an aligned word starts or ends in a device of the list. -/
theorem IsAtomicWord.deviceAddress_iff (h : IsAtomicWord din)
    (hvalid : isPmaValid din.dmemAddr = true) :
    deviceAddress din.dmemAddr din.dmemSize = true ↔
      (0x10000000 ≤ din.dmemAddr.toNat ∧ din.dmemAddr.toNat < 0x10000100) ∨
        (0x20000000 ≤ din.dmemAddr.toNat ∧ din.dmemAddr.toNat < 0x20010000) := by
  have hlt := din.dmemAddr.isLt
  have hal := h.aligned
  rw [isPmaValid_iff] at hvalid
  rw [h.size]
  unfold deviceAddress
  simp only [Bool.or_eq_true, Bool.and_eq_true, decide_eq_true_eq, BitVec.le_def, BitVec.lt_def,
    BitVec.toNat_add]
  change (((0x10000000 ≤ din.dmemAddr.toNat ∧ din.dmemAddr.toNat < 0x10000100) ∨
    (0x10000000 ≤ (din.dmemAddr.toNat + 4) % 2 ^ 32 ∧
      (din.dmemAddr.toNat + 4) % 2 ^ 32 < 0x10000100)) ∨
    (0x20000000 ≤ din.dmemAddr.toNat ∧ din.dmemAddr.toNat < 0x20010000)) ∨
    (0x20000000 ≤ (din.dmemAddr.toNat + 4) % 2 ^ 32 ∧
      (din.dmemAddr.toNat + 4) % 2 ^ 32 < 0x20010000) ↔ _
  omega

/-- Atomics stay off the devices and reach the RAM. -/
structure SparesDevices (devices : List (Device δ)) (m : Memory δ) (din : DmemIn) : Prop where
  device : din.dmemAddr < 0x80000000 → Refuses devices m din
  ram : 0x80000000 ≤ din.dmemAddr → Answers devices m din

/-- The registers of the PLIC. -/
def InPlic (addr : BitVec 32) : Prop := 0x30000000 ≤ addr ∧ addr < 0x34000000

instance (addr : BitVec 32) : Decidable (InPlic addr) := inferInstanceAs (Decidable (_ ∧ _))

/-- On the Linux platform an atomic at a valid address stays off the devices exactly when the
address is not one of the PLIC. -/
theorem sparesDevices_iff (undef : BitVec 32 → BitVec 32) (m : Memory LinuxDev) (din : DmemIn)
    (hatomic : IsAtomicWord din) (hvalid : isPmaValid din.dmemAddr = true) :
    SparesDevices (LinuxDev.devices undef) m din ↔ ¬ InPlic din.dmemAddr := by
  have hdev := hatomic.deviceAddress_iff hvalid
  rw [isPmaValid_iff] at hvalid
  have hplic : InPlic din.dmemAddr ↔
      0x30000000 ≤ din.dmemAddr.toNat ∧ din.dmemAddr.toNat < 0x34000000 := Iff.rfl
  have hhalf : (din.dmemAddr < 0x80000000 ↔ din.dmemAddr.toNat < 0x80000000) ∧
      (0x80000000 ≤ din.dmemAddr ↔ 0x80000000 ≤ din.dmemAddr.toNat) := ⟨Iff.rfl, Iff.rfl⟩
  rw [hplic]
  constructor
  · rintro ⟨hdevice, -⟩ hin
    have hlisted : deviceAddress din.dmemAddr din.dmemSize = false := by
      rw [← Bool.not_eq_true, hdev]
      omega
    have hrefuses := hdevice (hhalf.1.mpr (by omega))
    exact hrefuses.fault (hatomic.answers hlisted).fault
  · intro hout
    refine ⟨fun hlow => hatomic.refuses (hdev.mpr ?_), fun hhigh => hatomic.answers ?_⟩
    · rw [hhalf.1] at hlow
      omega
    · rw [hhalf.2] at hhigh
      rw [← Bool.not_eq_true, hdev]
      omega

/-- An AMO on the timer is refused, one on the first word of the RAM is answered. -/
theorem sparesDevices_timer_and_ram :
    (∀ m, Refuses (LinuxDev.devices fun _ => 0) m
      { dmemReqAck := true, dmemAddr := 0x20004000, dmemIsAmo := true, dmemAmoop := 3 }) ∧
    ∀ m, Answers (LinuxDev.devices fun _ => 0) m
      { dmemReqAck := true, dmemAddr := 0x80000000, dmemIsAmo := true, dmemAmoop := 3 } :=
  ⟨fun m => ((sparesDevices_iff (fun _ => 0) m _ ⟨rfl, rfl, rfl, by decide, by decide⟩
      (by decide)).mpr (by decide)).device (by decide),
    fun m => ((sparesDevices_iff (fun _ => 0) m _ ⟨rfl, rfl, rfl, by decide, by decide⟩
      (by decide)).mpr (by decide)).ram (by decide)⟩

/-- `amoswap.w` to the enable register of the PLIC for S-mode is answered without a fault and
builds a segment of RAM there, with the stored byte in it. -/
theorem amoswap_on_plic :
    let din : DmemIn := { dmemReqAck := true, dmemAddr := 0x30002080, dmemWdata := 0xff,
                          dmemIsAmo := true, dmemAmoop := 2 }
    let r := memAccess (LinuxDev.devices fun _ => 0) LinuxDev.memory din
    let m := updateMemory (LinuxDev.devices fun _ => 0) r.2 din r.1
    IsAtomicWord din ∧ isPmaValid din.dmemAddr = true ∧ r.1.memRspFault = 0 ∧
      LinuxDev.memory.ram.byteAt 0x30002080 = 0 ∧ m.ram.byteAt 0x30002080 = 0xff ∧
      ¬ SparesDevices (LinuxDev.devices fun _ => 0) LinuxDev.memory din := by
  intro din r m
  have hok : r.1.memRspFault = 0 := by decide
  have hlow : din.dmemAddr < 0x80000000 := by decide
  refine ⟨⟨rfl, rfl, rfl, by decide, by decide⟩, by decide, hok, by decide,
    by decide +kernel, fun h => ?_⟩
  exact (h.device hlow).fault hok

end Memory

end Turtle
