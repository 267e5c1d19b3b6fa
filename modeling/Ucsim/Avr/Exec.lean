import Ucsim.Avr.Jump

/-!
# Execution

`exec_inst` of `avr.cc`.
-/

namespace Ucsim.Avr

open Logic

/-- The `switch`es of `exec_inst` in their order. The masks of the inner ones contain those of the outer ones, so that
they are one table. -/
def cases : List (Pattern 16 (BitVec 16 → Inst)) :=
  [⟨0xffff, 0x9419, eijmp⟩, ⟨0xffff, 0x9519, eicall⟩, ⟨0xffff, 0x9508, ret⟩, ⟨0xffff, 0x9528, ret⟩,
   ⟨0xffff, 0x9548, ret⟩, ⟨0xffff, 0x9568, ret⟩, ⟨0xffff, 0x9518, reti⟩, ⟨0xffff, 0x9538, reti⟩,
   ⟨0xffff, 0x9558, reti⟩, ⟨0xffff, 0x9578, reti⟩, ⟨0xffff, 0x95c8, lpm⟩, ⟨0xffff, 0x95d8, stub⟩,
   ⟨0xffff, 0x95e8, stub⟩, ⟨0xffff, 0x95f8, stub⟩, ⟨0xffff, 0x9408, sec⟩, ⟨0xffff, 0x9488, clc⟩,
   ⟨0xffff, 0x9428, sen⟩, ⟨0xffff, 0x94a8, cln⟩, ⟨0xffff, 0x9418, sez⟩, ⟨0xffff, 0x9498, clz⟩,
   ⟨0xffff, 0x9478, sei⟩, ⟨0xffff, 0x94f8, cli⟩, ⟨0xffff, 0x9448, ses⟩, ⟨0xffff, 0x94c8, cls⟩,
   ⟨0xffff, 0x9438, sev⟩, ⟨0xffff, 0x94b8, clv⟩, ⟨0xffff, 0x9468, set⟩, ⟨0xffff, 0x94e8, clt⟩,
   ⟨0xffff, 0x9458, seh⟩, ⟨0xffff, 0x94d8, clh⟩, ⟨0xffff, 0x0000, nop⟩, ⟨0xffff, 0x9588, sleep⟩,
   ⟨0xffff, 0x9598, sleep⟩, ⟨0xffff, 0x95a8, wdr⟩, ⟨0xffff, 0x95b8, wdr⟩,
   ⟨0xf000, 0x3000, cpi_Rd_K⟩, ⟨0xf000, 0x4000, sbci_Rd_K⟩, ⟨0xf000, 0x5000, subi_Rd_K⟩, ⟨0xf000, 0x6000, ori_Rd_K⟩,
   ⟨0xf000, 0x7000, andi_Rd_K⟩, ⟨0xf000, 0xc000, rjmp_k⟩, ⟨0xf000, 0xd000, rcall_k⟩, ⟨0xf000, 0xe000, ldi_Rd_K⟩,
   -- 0x0... to 0x2...; the multiplications and `movw` do nothing
   ⟨0xff00, 0x0100, stub⟩, ⟨0xff00, 0x0200, stub⟩, ⟨0xff88, 0x0300, stub⟩, ⟨0xff88, 0x0308, stub⟩,
   ⟨0xff88, 0x0380, stub⟩, ⟨0xff88, 0x0388, stub⟩, ⟨0xfc00, 0x0400, cpc_Rd_Rr⟩, ⟨0xfc00, 0x0800, sbc_Rd_Rr⟩,
   ⟨0xfc00, 0x0c00, add_Rd_Rr⟩, ⟨0xfc00, 0x1000, cpse_Rd_Rr⟩, ⟨0xfc00, 0x1400, cp_Rd_Rr⟩, ⟨0xfc00, 0x1800, sub_Rd_Rr⟩,
   ⟨0xfc00, 0x1c00, adc_Rd_Rr⟩, ⟨0xfc00, 0x2000, and_Rd_Rr⟩, ⟨0xfc00, 0x2400, eor_Rd_Rr⟩, ⟨0xfc00, 0x2800, or_Rd_Rr⟩,
   ⟨0xfc00, 0x2c00, mov_Rd_Rr⟩,
   -- 0x8...
   ⟨0xf208, 0x8000, ldd_Rd_Z_q⟩, ⟨0xf208, 0x8008, ldd_Rd_Y_q⟩, ⟨0xf208, 0x8200, std_Z_q_Rr⟩,
   ⟨0xf208, 0x8208, std_Y_q_Rr⟩,
   -- 0x9...
   ⟨0xff0f, 0x9509, icall⟩, ⟨0xff0f, 0x9409, ijmp⟩, ⟨0xff00, 0x9600, adiw_Rdl_K⟩, ⟨0xff00, 0x9700, sbiw_Rdl_K⟩,
   ⟨0xfe0f, 0x9000, lds_Rd_k⟩, ⟨0xfe0f, 0x9001, ld_Rd_ZS⟩, ⟨0xfe0f, 0x9002, ld_Rd_SZ⟩, ⟨0xfe0f, 0x9004, stub⟩,
   ⟨0xfe0f, 0x9005, stub⟩, ⟨0xfe0f, 0x9006, stub⟩, ⟨0xfe0f, 0x9007, stub⟩, ⟨0xfe0f, 0x9009, ld_Rd_YS⟩,
   ⟨0xfe0f, 0x900a, ld_Rd_SY⟩, ⟨0xfe0f, 0x900c, ld_Rd_X⟩, ⟨0xfe0f, 0x900d, ld_Rd_XS⟩, ⟨0xfe0f, 0x900e, ld_Rd_SX⟩,
   ⟨0xfe0f, 0x900f, pop_Rd⟩, ⟨0xfe0f, 0x9200, sts_k_Rr⟩, ⟨0xfe0f, 0x9201, st_ZS_Rr⟩, ⟨0xfe0f, 0x9202, st_SZ_Rr⟩,
   ⟨0xfe0f, 0x9209, st_YS_Rr⟩, ⟨0xfe0f, 0x920a, st_SY_Rr⟩, ⟨0xfe0f, 0x920c, st_X_Rr⟩, ⟨0xfe0f, 0x920d, st_XS_Rr⟩,
   ⟨0xfe0f, 0x920e, st_SX_Rr⟩, ⟨0xfe0f, 0x920f, push_Rr⟩,
   ⟨0xfe0f, 0x9400, com_Rd⟩, ⟨0xfe0f, 0x9401, neg_Rd⟩, ⟨0xfe0f, 0x9402, swap_Rd⟩, ⟨0xfe0f, 0x9403, inc_Rd⟩,
   ⟨0xfe0f, 0x9405, asr_Rd⟩, ⟨0xfe0f, 0x9406, lsr_Rd⟩, ⟨0xfe0f, 0x9407, ror_Rd⟩, ⟨0xfe0f, 0x940a, dec_Rd⟩,
   ⟨0xfe0f, 0x940c, jmp_k⟩, ⟨0xfe0f, 0x940d, jmp_k⟩, ⟨0xfe0f, 0x940e, call_k⟩, ⟨0xfe0f, 0x940f, call_k⟩,
   ⟨0xff00, 0x9800, cbi_A_b⟩, ⟨0xff00, 0x9900, sbic_P_b⟩, ⟨0xff00, 0x9a00, sbi_A_b⟩, ⟨0xff00, 0x9b00, sbis_P_b⟩,
   ⟨0xfc00, 0x9c00, mul_Rd_Rr⟩,
   -- 0xa... and 0xb...
   ⟨0xf208, 0xa000, ldd_Rd_Z_q⟩, ⟨0xf208, 0xa008, ldd_Rd_Y_q⟩, ⟨0xf208, 0xa200, std_Z_q_Rr⟩,
   ⟨0xf208, 0xa208, std_Y_q_Rr⟩, ⟨0xf800, 0xb000, in_Rd_A⟩, ⟨0xf800, 0xb800, out_A_Rr⟩,
   -- 0xe... and 0xf...
   ⟨0xff0f, 0xef0f, ser_Rd⟩, ⟨0xfc00, 0xf000, brbs_s_k⟩, ⟨0xfc00, 0xf400, brbc_s_k⟩, ⟨0xfe08, 0xf800, bld_Rd_b⟩,
   ⟨0xfe08, 0xfa00, bst_Rd_b⟩, ⟨0xfe08, 0xfc00, sbrc_Rr_b⟩, ⟨0xfe08, 0xfc08, sbrc_Rr_b⟩, ⟨0xfe08, 0xfe00, sbrs_Rr_b⟩,
   ⟨0xfe08, 0xfe08, sbrs_Rr_b⟩]

/-- The instruction of a code. -/
def decode (code : BitVec 16) : Option Inst := (Pattern.find cases code).map (· code)

/-- `exec_inst`. A code that it does not know is reported and passed over. -/
def exec_inst : Prog Res := do
  let code ← fetch
  tick 1
  match decode code with
  | some i => i.run
  | none => return .go

/-- The code at PC. -/
def Machine.code (s : Machine) : BitVec 16 := s.romAt s.PC

/-- The machine when the code has been fetched. -/
def Machine.fetched (s : Machine) : Machine := { s with PC := inc_address s.PC, ticks := s.ticks + 1 }

/-- The machine after an instruction. -/
def Machine.step (s : Machine) : Machine := (exec_inst.run s).2

theorem exec_inst_run (s : Machine) {i : Inst} (h : decode s.code = some i) : exec_inst.run s = i.run.run s.fetched := by
  have hrun : exec_inst.run s = (match decode s.code with | some i => i.run | none => return .go : Prog Res).run s.fetched := rfl
  rw [hrun, h]

theorem step_eq {s : Machine} {i : Inst} (h : decode s.code = some i) : s.step = (i.run.run s.fetched).2 :=
  congrArg Prod.snd (exec_inst_run s h)

/-- The instruction of a code that has given values in some bits, when the first case that the code can be decides. -/
theorem decode_of_first {code mask value : BitVec 16} {p : Pattern 16 (BitVec 16 → Inst)}
    {rest : List (Pattern 16 (BitVec 16 → Inst))} (hcode : code &&& mask = value)
    (hfirst : cases.filter (Pattern.meets mask value) = p :: rest) (hcovers : p.Covers mask value) :
    decode code = some (p.body code) := by
  unfold decode
  rw [Pattern.find_of_first hcode hfirst hcovers]
  rfl

end Ucsim.Avr
