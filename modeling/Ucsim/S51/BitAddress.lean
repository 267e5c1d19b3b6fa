import Ucsim.S51.Core

/-!
# Bit addresses

The 256 bits that an instruction can name are those of the bytes 0x20 to 0x2F of the internal RAM and of
the SFRs at multiples of 8. `bit2mem` decodes the address of a bit; `bit_address` is its inverse for the
commands, which name a bit by its memory, the address of the byte and the number of the bit.
-/

namespace Ucsim.S51

/-- The memories of the controller: its address spaces and its chips. -/
inductive Mem
  | space (s : Space)
  | sfrChip
  | chip (id : Nat)
  deriving DecidableEq, Repr

/-- A bit as a command names it. -/
structure BitName where
  mem : Mem
  address : Int
  number : Int
  deriving DecidableEq, Repr

/-- `bit_address`. -/
def bitAddress (b : BitName) : Int :=
  if b.number < 0 ∨ b.number > 7 ∨ b.address < 0 then -1
  else
    let (mem, address) : Mem × Int :=
      if b.mem = .sfrChip then (.space .sfr, b.address + Space.sfr.startAddress)
      else (b.mem, b.address)
    if mem = .space .sfr then
      if address < 128 ∨ address % 8 ≠ 0 ∨ address > 255 then -1
      else 128 + (address - 128) + b.number
    else if mem = .space .iram then
      if address < 0x20 ∨ address ≥ 0x20 + 32 then -1
      else (address - 0x20) * 8 + b.number
    else -1

namespace BitName

/-- The address space and the address of the byte with this bit. A slot of `sfr_chip` backs the SFR at
the same distance from the first one. -/
def place (b : BitName) : Option (Space × Int) :=
  match b.mem with
  | .space s => some (s, b.address)
  | .sfrChip =>
    if 0 ≤ b.address ∧ b.address < Space.sfr.size then some (.sfr, Space.sfr.startAddress + b.address)
    else none
  | .chip _ => none

/-- Does an instruction with the bit address `n` access this bit? -/
def HasAddress (b : BitName) (n : Int) : Prop :=
  0 ≤ n ∧ n ≤ 255 ∧ 0 ≤ b.number ∧
    ∃ s a, b.place = some (s, a) ∧ bit2mem (BitVec.ofInt 16 n) = (s, a, (1 : TMem) <<< b.number.toNat)

/-- `bit_address` returns the bit address of the bit if it has one, and otherwise a negative number. -/
def Right (b : BitName) : Prop := ∀ n, b.HasAddress n ↔ 0 ≤ bitAddress b ∧ bitAddress b = n

/-- Different bits with the same bit address. -/
def Collides (b c : BitName) : Prop :=
  0 ≤ bitAddress b ∧ bitAddress b = bitAddress c ∧ ¬ (b.place = c.place ∧ b.number = c.number)

/-- A bit of the internal RAM behind the bit-addressable area, where `bit_address` still answers. -/
def BehindBits (b : BitName) : Prop :=
  b.mem = .space .iram ∧ 0x30 ≤ b.address ∧ b.address ≤ 0x3F ∧ 0 ≤ b.number ∧ b.number ≤ 7

/-- The bit `c` of an SFR whose bit address `bit_address` returns for the bit `b` of the internal RAM. -/
def Shadows (b c : BitName) : Prop :=
  b.BehindBits ∧ c.place = some (.sfr, 0x80 + 8 * (b.address - 0x30)) ∧ c.number = b.number

end BitName

/-! ## Decoding -/

theorem bit2mem_byte (x : BitVec 8) :
    bit2mem (x.setWidth 16) =
      if x.toNat < 128 then (Space.iram, (x.toNat : Int) / 8 + 0x20, (1 : TMem) <<< (x.toNat % 8))
      else (Space.sfr, (x.toNat : Int) - x.toNat % 8, (1 : TMem) <<< (x.toNat % 8)) := by
  revert x
  decide

theorem bit2mem_ofInt {n : Int} (h0 : 0 ≤ n) (h : n ≤ 255) :
    bit2mem (BitVec.ofInt 16 n) =
      if n < 128 then (Space.iram, n / 8 + 0x20, (1 : TMem) <<< (n % 8).toNat)
      else (Space.sfr, n - n % 8, (1 : TMem) <<< (n % 8).toNat) := by
  obtain ⟨m, rfl⟩ := Int.eq_ofNat_of_zero_le h0
  have hm : m < 256 := by omega
  have hx : (BitVec.ofNat 8 m).toNat = m := by simp [Nat.mod_eq_of_lt hm]
  have hbyte := bit2mem_byte (BitVec.ofNat 8 m)
  have hof : BitVec.ofInt 16 (m : Int) = (BitVec.ofNat 8 m).setWidth 16 := by
    apply BitVec.eq_of_toNat_eq
    rw [BitVec.toNat_setWidth, hx]
    rfl
  have hmod : ((m : Int) % 8).toNat = m % 8 := by omega
  have hlt : ((m : Int) < 128) ↔ m < 128 := by omega
  rw [hof, hbyte, hx]
  simp only [hmod, hlt]

/-- Masks of different bits are different. -/
theorem mask_inj {j k : Nat} (hj : j < 8) (h : (1 : TMem) <<< j = (1 : TMem) <<< k) : k = j := by
  have hbit : ((1 : TMem) <<< k).getLsbD j = true := by
    rw [← h]
    have hall : ∀ i : Nat, i < 8 → ((1 : TMem) <<< i).getLsbD i = true := by decide
    exact hall j hj
  simp only [BitVec.getLsbD_shiftLeft] at hbit
  simp only [Bool.and_eq_true, Bool.not_eq_true', decide_eq_true_eq, decide_eq_false_iff_not] at hbit
  obtain ⟨⟨_, hjk⟩, hone⟩ := hbit
  have hzero : ∀ i : Nat, i < 8 → (1 : TMem).getLsbD i = true → i = 0 := by decide
  have := hzero (j - k) (by omega) hone
  omega

/-- The bits with a bit address. -/
theorem hasAddress_iff (b : BitName) (n : Int) :
    b.HasAddress n ↔
      0 ≤ b.number ∧ b.number ≤ 7 ∧
        ((∃ a, b.place = some (.iram, a) ∧ 0x20 ≤ a ∧ a ≤ 0x2F ∧ n = (a - 0x20) * 8 + b.number) ∨
          ∃ a, b.place = some (.sfr, a) ∧ 0x80 ≤ a ∧ a ≤ 0xFF ∧ a % 8 = 0 ∧ n = a + b.number) := by
  constructor
  · rintro ⟨h0, h255, hb, s, a, hplace, hbit⟩
    rw [bit2mem_ofInt h0 h255] at hbit
    split at hbit
    · rename_i hlt
      simp only [Prod.mk.injEq] at hbit
      obtain ⟨rfl, rfl, hmask⟩ := hbit
      have := mask_inj (by omega) hmask
      exact ⟨hb, by omega, .inl ⟨_, hplace, by omega, by omega, by omega⟩⟩
    · rename_i hlt
      simp only [Prod.mk.injEq] at hbit
      obtain ⟨rfl, rfl, hmask⟩ := hbit
      have := mask_inj (by omega) hmask
      exact ⟨hb, by omega, .inr ⟨_, hplace, by omega, by omega, by omega, by omega⟩⟩
  · rintro ⟨hb, hb7, ⟨a, hplace, ha, ha', rfl⟩ | ⟨a, hplace, ha, ha', hmod, rfl⟩⟩
    · refine ⟨by omega, by omega, hb, .iram, a, hplace, ?_⟩
      rw [bit2mem_ofInt (by omega) (by omega), if_pos (by omega)]
      have hdiv : ((a - 0x20) * 8 + b.number) / 8 + 0x20 = a := by omega
      have hrem : ((a - 0x20) * 8 + b.number) % 8 = b.number := by omega
      rw [hdiv, hrem]
    · refine ⟨by omega, by omega, hb, .sfr, a, hplace, ?_⟩
      rw [bit2mem_ofInt (by omega) (by omega), if_neg (by omega)]
      have hrem : (a + b.number) % 8 = b.number := by omega
      rw [hrem, show a + b.number - b.number = a by omega]

/-! ## Encoding -/

/-- `bit_address` depends on the place of the byte only. -/
theorem bitAddress_eq_place (b : BitName) :
    bitAddress b =
      if b.number < 0 ∨ b.number > 7 then -1
      else
        match b.place with
        | some (.sfr, a) => if a < 128 ∨ a % 8 ≠ 0 ∨ a > 255 then -1 else a + b.number
        | some (.iram, a) => if a < 0x20 ∨ a ≥ 0x40 then -1 else (a - 0x20) * 8 + b.number
        | _ => -1 := by
  obtain ⟨mem, a, k⟩ := b
  by_cases hk : k < 0 ∨ k > 7
  · rw [if_pos hk, bitAddress, if_pos (by simp only; omega)]
  · rw [if_neg hk]
    cases mem with
    | space s =>
      cases s <;> simp only [bitAddress, BitName.place] <;> grind
    | sfrChip =>
      simp only [bitAddress, BitName.place, Space.startAddress, Space.size]
      grind
    | chip id =>
      simp only [bitAddress, BitName.place]
      grind

/-- What `bit_address` answers: its area in the internal RAM is twice as long as that of `bit2mem`. -/
theorem bitAddress_eq_iff (b : BitName) (n : Int) :
    (0 ≤ bitAddress b ∧ bitAddress b = n) ↔
      0 ≤ b.number ∧ b.number ≤ 7 ∧
        ((∃ a, b.place = some (.iram, a) ∧ 0x20 ≤ a ∧ a ≤ 0x3F ∧ n = (a - 0x20) * 8 + b.number) ∨
          ∃ a, b.place = some (.sfr, a) ∧ 0x80 ≤ a ∧ a ≤ 0xFF ∧ a % 8 = 0 ∧ n = a + b.number) := by
  rw [bitAddress_eq_place]
  cases hplace : b.place with
  | none => split <;> simp
  | some p =>
    obtain ⟨s, a⟩ := p
    cases s <;> simp <;> grind

/-- The bytes of the internal RAM have no other name. -/
theorem place_iram {b : BitName} {a : Int} (h : b.place = some (.iram, a)) :
    b.mem = .space .iram ∧ b.address = a := by
  obtain ⟨mem, a', k⟩ := b
  cases mem with
  | space s =>
    simp only [BitName.place, Option.some.injEq, Prod.mk.injEq] at h
    exact ⟨congrArg Mem.space h.1, h.2⟩
  | sfrChip =>
    simp only [BitName.place] at h
    split at h <;> simp at h
  | chip id => simp [BitName.place] at h

theorem BitName.BehindBits.place {b : BitName} (h : b.BehindBits) :
    b.place = some (.iram, b.address) := by
  simp [BitName.place, h.1]

/-- An answer of `bit_address` is the bit address of the bit, or it is given for a bit behind the
area. -/
theorem answer_cases {b : BitName} {n : Int} (h : 0 ≤ bitAddress b ∧ bitAddress b = n) :
    b.HasAddress n ∨ b.BehindBits ∧ n = 0x80 + 8 * (b.address - 0x30) + b.number := by
  obtain ⟨hk, hk7, ⟨a, hplace, ha, ha', hn⟩ | hsfr⟩ := (bitAddress_eq_iff b n).1 h
  · obtain ⟨hmem, haddr⟩ := place_iram hplace
    by_cases hin : a ≤ 0x2F
    · exact .inl ((hasAddress_iff b n).2 ⟨hk, hk7, .inl ⟨a, hplace, ha, hin, hn⟩⟩)
    · exact .inr ⟨⟨hmem, by omega, by omega, hk, hk7⟩, by omega⟩
  · exact .inl ((hasAddress_iff b n).2 ⟨hk, hk7, .inr hsfr⟩)

/-- A bit that has a bit address gets it. -/
theorem bitAddress_of_hasAddress {b : BitName} {n : Int} (h : b.HasAddress n) :
    0 ≤ bitAddress b ∧ bitAddress b = n := by
  obtain ⟨hk, hk7, ⟨a, hplace, ha, ha', hn⟩ | hsfr⟩ := (hasAddress_iff b n).1 h
  · exact (bitAddress_eq_iff b n).2 ⟨hk, hk7, .inl ⟨a, hplace, ha, by omega, hn⟩⟩
  · exact (bitAddress_eq_iff b n).2 ⟨hk, hk7, .inr hsfr⟩

/-- A bit behind the area gets the address of a bit of an SFR. -/
theorem bitAddress_of_behind {b : BitName} (h : b.BehindBits) :
    bitAddress b = 0x80 + 8 * (b.address - 0x30) + b.number := by
  have hplace := h.place
  obtain ⟨_, ha, ha', hk, hk7⟩ := h
  exact ((bitAddress_eq_iff b _).2
    ⟨hk, hk7, .inl ⟨_, hplace, by omega, by omega, by omega⟩⟩).2

theorem not_hasAddress_of_behind {b : BitName} (h : b.BehindBits) (n : Int) : ¬ b.HasAddress n := by
  have hplace := h.place
  obtain ⟨_, ha, _⟩ := h
  rw [hasAddress_iff]
  rintro ⟨_, _, ⟨a, ha', _, hlt, _⟩ | ⟨a, ha', _⟩⟩
  · rw [hplace] at ha'
    simp only [Option.some.injEq, Prod.mk.injEq, true_and] at ha'
    omega
  · simp [hplace] at ha'

/-- Bits with the same bit address are the same bit. -/
theorem hasAddress_inj {b c : BitName} {n : Int} (hb : b.HasAddress n) (hc : c.HasAddress n) :
    b.place = c.place ∧ b.number = c.number := by
  obtain ⟨_, _, hb⟩ := (hasAddress_iff b n).1 hb
  obtain ⟨_, _, hc⟩ := (hasAddress_iff c n).1 hc
  rcases hb with ⟨a, hp, _, _, hn⟩ | ⟨a, hp, _, _, _, hn⟩ <;>
    rcases hc with ⟨a', hp', _, _, hn'⟩ | ⟨a', hp', _, _, _, hn'⟩
  · have ha : a = a' := by omega
    exact ⟨by rw [hp, hp', ha], by omega⟩
  · omega
  · omega
  · have ha : a = a' := by omega
    exact ⟨by rw [hp, hp', ha], by omega⟩

/-- The SFR bit with the address that a bit behind the area gets. -/
theorem shadows_of_hasAddress {b c : BitName} (h : b.BehindBits) (hc : c.HasAddress (bitAddress b)) :
    b.Shadows c := by
  rw [bitAddress_of_behind h] at hc
  have hbehind := h
  obtain ⟨_, ha, ha', hk, hk7⟩ := h
  obtain ⟨_, _, ⟨a, hp, _, _, hn⟩ | ⟨a, hp, _, _, hmod, hn⟩⟩ := (hasAddress_iff c _).1 hc
  · omega
  · have hplace : a = 0x80 + 8 * (b.address - 0x30) := by omega
    exact ⟨hbehind, by rw [hp, hplace], by omega⟩

theorem BitName.Shadows.collides {b c : BitName} (h : b.Shadows c) : b.Collides c := by
  obtain ⟨hbehind, hp, hnum⟩ := h
  have hb := bitAddress_of_behind hbehind
  have hbplace := hbehind.place
  obtain ⟨_, ha, ha', hk, hk7⟩ := hbehind
  have hc : c.HasAddress (0x80 + 8 * (b.address - 0x30) + b.number) :=
    (hasAddress_iff c _).2
      ⟨by omega, by omega, .inr ⟨_, hp, by omega, by omega, by omega, by omega⟩⟩
  refine ⟨by omega, by rw [hb, (bitAddress_of_hasAddress hc).2], ?_⟩
  rintro ⟨hplace, _⟩
  simp [hbplace, hp] at hplace

theorem collides_symm {b c : BitName} (h : b.Collides c) : c.Collides b :=
  ⟨h.2.1 ▸ h.1, h.2.1.symm, fun e => h.2.2 ⟨e.1.symm, e.2.symm⟩⟩

/-- The bit that `bit2mem` finds for a bit address. -/
def BitName.decoded (n : Int) : BitName :=
  { mem := .space (bit2mem (BitVec.ofInt 16 n)).1
    address := (bit2mem (BitVec.ofInt 16 n)).2.1
    number := n % 8 }

theorem decoded_hasAddress {n : Int} (h0 : 0 ≤ n) (h : n ≤ 255) : (BitName.decoded n).HasAddress n := by
  refine ⟨h0, h, ?_, _, _, rfl, ?_⟩
  · simp only [BitName.decoded]
    omega
  · simp only [BitName.decoded, bit2mem_ofInt h0 h]
    split <;> rfl

/-- `bit_address` is the inverse of `bit2mem` except for the bits of the internal RAM behind the
bit-addressable area, which get the addresses of the SFR bits; no other bits share an address. -/
theorem bitAddress_right_iff (b c : BitName) :
    (b.Right ↔ ¬ b.BehindBits) ∧
      (∀ n, 0 ≤ n → n ≤ 255 →
        (BitName.decoded n).HasAddress n ∧ bitAddress (BitName.decoded n) = n) ∧
      (b.Collides c ↔ b.Shadows c ∨ c.Shadows b) := by
  refine ⟨⟨fun hright hbehind => ?_, fun hnot n => ⟨bitAddress_of_hasAddress, fun h => ?_⟩⟩,
    fun n h0 h => ⟨decoded_hasAddress h0 h, (bitAddress_of_hasAddress (decoded_hasAddress h0 h)).2⟩,
    fun h => ?_, ?_⟩
  · have hval := bitAddress_of_behind hbehind
    have hpos : 0 ≤ bitAddress b := by
      have := hbehind.2.1
      have := hbehind.2.2.2.1
      omega
    exact not_hasAddress_of_behind hbehind _ ((hright _).2 ⟨hpos, rfl⟩)
  · exact (answer_cases h).resolve_right fun hbehind => hnot hbehind.1
  · obtain ⟨hpos, heq, hne⟩ := h
    have hc := answer_cases (b := c) ⟨heq ▸ hpos, heq.symm⟩
    rcases answer_cases (b := b) ⟨hpos, rfl⟩ with hb | ⟨hb, hbn⟩
    · rcases hc with hc | ⟨hc, _⟩
      · exact absurd (hasAddress_inj hb hc) hne
      · exact .inr (shadows_of_hasAddress hc (heq ▸ hb))
    · rcases hc with hc | ⟨hc, hcn⟩
      · exact .inl (shadows_of_hasAddress hb hc)
      · refine absurd ⟨?_, ?_⟩ hne
        · have haddr : b.address = c.address := by
            have := hb.2.2.2
            have := hc.2.2.2
            omega
          rw [hb.place, hc.place, haddr]
        · have := hb.2.2.2
          have := hc.2.2.2
          omega
  · rintro (h | h)
    · exact h.collides
    · exact collides_symm h.collides

/-- Bit 0 of the byte 0x30 of the internal RAM has no bit address, but `bit_address` returns 0x80, the
address of bit 0 of the port P0. -/
theorem bitAddress_iram_30 :
    ¬ BitName.Right ⟨.space .iram, 0x30, 0⟩ ∧
      BitName.Collides ⟨.space .iram, 0x30, 0⟩ ⟨.space .sfr, 0x80, 0⟩ := by
  refine ⟨fun h => not_hasAddress_of_behind (b := ⟨.space .iram, 0x30, 0⟩) ?_ 0x80
    ((h 0x80).2 (by decide)), by decide, by decide, by decide⟩
  exact ⟨rfl, by decide⟩

end Ucsim.S51
