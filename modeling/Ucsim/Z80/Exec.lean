import Ucsim.Z80.InstXd

/-!
# Execution

`exec_inst` of `z80.cc`.
-/

namespace Ucsim.Z80

/-- The `switch` of `exec_inst`. -/
def dispatch (code : BitVec 8) : Prog Res :=
  switch
    [([0x00], inst_nop),
     ([0x01, 0x02, 0x06, 0x0A, 0x0E, 0x11, 0x12, 0x16, 0x1A, 0x1E, 0x21, 0x22, 0x26, 0x2A, 0x2E, 0x31, 0x32,
        0x36, 0x3A, 0x3E, 0x40, 0x41, 0x42, 0x43, 0x44, 0x45, 0x46, 0x47, 0x48, 0x49, 0x4A, 0x4B, 0x4C, 0x4D,
        0x4E, 0x4F, 0x50, 0x51, 0x52, 0x53, 0x54, 0x55, 0x56, 0x57, 0x58, 0x59, 0x5A, 0x5B, 0x5C, 0x5D, 0x5E,
        0x5F, 0x60, 0x61, 0x62, 0x63, 0x64, 0x65, 0x66, 0x67, 0x68, 0x69, 0x6A, 0x6B, 0x6C, 0x6D, 0x6E, 0x6F,
        0x70, 0x71, 0x72, 0x73, 0x74, 0x75, 0x77, 0x78, 0x79, 0x7A, 0x7B, 0x7C, 0x7D, 0x7E, 0x7F, 0xF9],
        inst_ld code),
     ([0x03, 0x04, 0x0C, 0x13, 0x14, 0x1C, 0x23, 0x24, 0x2C, 0x33, 0x34, 0x3C], inst_inc code),
     ([0x05, 0x0B, 0x0D, 0x15, 0x1B, 0x1D, 0x25, 0x2B, 0x2D, 0x35, 0x3B, 0x3D], inst_dec code),
     ([0x07], inst_rlca),
     ([0x08, 0xE3, 0xEB], inst_ex code),
     ([0x09, 0x19, 0x29, 0x39, 0x80, 0x81, 0x82, 0x83, 0x84, 0x85, 0x86, 0x87, 0xC6], inst_add code),
     ([0x0F], inst_rrca),
     ([0x10], inst_djnz),
     ([0x17], inst_rla),
     ([0x18, 0x20, 0x28, 0x30, 0x38], inst_jr code),
     ([0x1F], inst_rra),
     ([0x27], inst_daa),
     ([0x2F], inst_cpl),
     ([0x37], inst_scf),
     ([0x3F], inst_ccf),
     ([0x76], inst_halt),
     ([0x88, 0x89, 0x8A, 0x8B, 0x8C, 0x8D, 0x8E, 0x8F, 0xCE], inst_adc code),
     ([0x90, 0x91, 0x92, 0x93, 0x94, 0x95, 0x96, 0x97, 0xD6], inst_sub code),
     ([0x98, 0x99, 0x9A, 0x9B, 0x9C, 0x9D, 0x9E, 0x9F, 0xDE], inst_sbc code),
     ([0xA0, 0xA1, 0xA2, 0xA3, 0xA4, 0xA5, 0xA6, 0xA7, 0xE6], inst_and code),
     ([0xA8, 0xA9, 0xAA, 0xAB, 0xAC, 0xAD, 0xAE, 0xAF, 0xEE], inst_xor code),
     ([0xB0, 0xB1, 0xB2, 0xB3, 0xB4, 0xB5, 0xB6, 0xB7, 0xF6], inst_or code),
     ([0xB8, 0xB9, 0xBA, 0xBB, 0xBC, 0xBD, 0xBE, 0xBF, 0xFE], inst_cp code),
     ([0xC0, 0xC8, 0xC9, 0xD0, 0xD8, 0xE0, 0xE8, 0xF0, 0xF8], inst_ret code),
     ([0xC1, 0xD1, 0xE1, 0xF1], inst_pop code),
     ([0xC2, 0xC3, 0xCA, 0xD2, 0xDA, 0xE2, 0xE9, 0xEA, 0xF2, 0xFA], inst_jp code),
     ([0xC4, 0xCC, 0xCD, 0xD4, 0xDC, 0xE4, 0xEC, 0xF4, 0xFC], inst_call code),
     ([0xC5, 0xD5, 0xE5, 0xF5], inst_push code),
     ([0xC7, 0xCF, 0xD7, 0xDF, 0xE7, 0xEF, 0xF7, 0xFF], inst_rst code),
     ([0xCB], inst_cb),
     ([0xD3], inst_out),
     ([0xD9], inst_exx),
     ([0xDB], inst_in),
     ([0xDD], inst_dd),
     ([0xED], inst_ed),
     ([0xF3], inst_di),
     ([0xFB], inst_ei),
     ([0xFD], inst_fd)]
    unknown code

/-- `exec_inst`. -/
def exec_inst : Prog Res := do
  let code ← fetch
  tick
  dispatch code

end Ucsim.Z80
