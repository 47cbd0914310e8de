import Mathlib.Data.List.Pairwise
import Yarr.Core.BitField
import Yarr.Core.Bits
import Yarr.Star.StarCfg

/-!
# Sub-registers

Named fields of the registers of a chip, from tables for each version, and the
fields of single strips: trims and masks.
-/

namespace Yarr.Star

/-- What a call leaves behind: the object, and the exception that ended the call. -/
structure Outcome (E S : Type) where
  thrown : Option E
  state : S

inductive SubRegisterFailure where
  | badSubRegister
  | outOfRange
  | invalidBits
  deriving DecidableEq, Repr

namespace SubRegisterInfo

def maskBits (info : SubRegisterInfo) : UInt32 := (1 <<< UInt32.ofNat info.m_width) - 1

/-- `SubRegister::updateValue`: none for bits outside of the field. -/
def updateValue (info : SubRegisterInfo) (reg cfgBits : UInt32) : Option UInt32 :=
  let m_bOffset := UInt32.ofNat info.m_bOffset
  if cfgBits &&& ~~~info.maskBits ≠ 0 then none
  else some ((reg &&& ~~~(info.maskBits <<< m_bOffset)) |||
    ((cfgBits &&& info.maskBits) <<< m_bOffset))

end SubRegisterInfo

/-! ## Tables -/

inductive ABCStarSubRegister where
  | RRFORCE | WRITEDISABLE | STOPHPR | TESTHPR | EFUSEL | LCBERRCNTCLR | BVREF | BIREF | B8BREF
  | BTRANGE | BVT | COMBIAS | BIFEED | BIPRE | STR_DEL_R | STR_DEL | BCAL | BCAL_RANGE | ADC_BIAS
  | ADC_CH | ADC_ENABLE | D_S | D_LOW | D_EN_CTRL | BTMUX | BTMUXD | A_S | A_EN_CTRL
  | TEST_PULSE_ENABLE | ENCOUNT | MASKHPR | PR_ENABLE | LP_ENABLE | RRMODE | TM | TESTPATT_ENABLE
  | TESTPATT1 | TESTPATT2 | CURRDRIV | CALPULSE_ENABLE | CALPULSE_POLARITY | LATENCY
  | BCFLAG_ENABLE | BCOFFSET | DETMODE | MAX_CLUSTER | MAX_CLUSTER_ENABLE | EN_CLUSTER_EMPTY
  | EN_CLUSTER_FULL | EN_CLUSTER_OVFL | EN_REGFIFO_EMPTY | EN_REGFIFO_FULL | EN_REGFIFO_OVFL
  | EN_LPFIFO_EMPTY | EN_LPFIFO_FULL | EN_PRFIFO_EMPTY | EN_PRFIFO_FULL | EN_LCB_LOCKED
  | EN_LCB_DECODE_ERR | EN_LCB_ERRCNT_OVFL | EN_LCB_SCMD_ERR | LCB_ERRCOUNT_THR | ADCRESET
  | DIS_CLK | LCB_SELF_TEST_ENABLE | DATA_IDLE | EN_GLITCH_A | EN_GLITCH_B | EN_GLITCH_C
  | EN_GLITCH_V | EN_GLITCH_ADC | RING_OSC_EN | BTMUX_DEC | A_S_DEC | A_LOW | D_S_DEC
  | EN_OUT_DECODER | DTESTOUTSEL | V0_READOUT_MODE | DIS_CLKS_EN | READOUT_TIMEOUT_ENABLE
  deriving DecidableEq, Repr

def s_abcsubregdefs_v0 : List (ABCStarSubRegister × SubRegisterInfo) :=
  [(.RRFORCE, ⟨0, 0, 1⟩), (.WRITEDISABLE, ⟨0, 1, 1⟩), (.STOPHPR, ⟨0, 2, 1⟩), (.TESTHPR, ⟨0, 3, 1⟩),
    (.EFUSEL, ⟨0, 4, 1⟩), (.LCBERRCNTCLR, ⟨0, 5, 1⟩), (.BVREF, ⟨1, 0, 5⟩), (.BIREF, ⟨1, 8, 5⟩),
    (.B8BREF, ⟨1, 16, 5⟩), (.BTRANGE, ⟨1, 24, 5⟩), (.BVT, ⟨2, 0, 8⟩), (.COMBIAS, ⟨2, 8, 5⟩),
    (.BIFEED, ⟨2, 16, 5⟩), (.BIPRE, ⟨2, 24, 5⟩), (.STR_DEL_R, ⟨3, 0, 2⟩), (.STR_DEL, ⟨3, 8, 6⟩),
    (.BCAL, ⟨3, 16, 9⟩), (.BCAL_RANGE, ⟨3, 25, 1⟩), (.ADC_BIAS, ⟨4, 0, 4⟩), (.ADC_CH, ⟨4, 4, 4⟩),
    (.ADC_ENABLE, ⟨4, 8, 1⟩), (.D_S, ⟨6, 0, 16⟩), (.D_LOW, ⟨6, 16, 1⟩), (.D_EN_CTRL, ⟨6, 17, 1⟩),
    (.BTMUX, ⟨7, 0, 14⟩), (.BTMUXD, ⟨7, 14, 1⟩), (.A_S, ⟨7, 15, 16⟩), (.A_EN_CTRL, ⟨7, 31, 1⟩),
    (.TEST_PULSE_ENABLE, ⟨32, 4, 1⟩), (.ENCOUNT, ⟨32, 5, 1⟩), (.MASKHPR, ⟨32, 6, 1⟩),
    (.PR_ENABLE, ⟨32, 8, 1⟩), (.LP_ENABLE, ⟨32, 9, 1⟩), (.RRMODE, ⟨32, 10, 2⟩), (.TM, ⟨32, 16, 2⟩),
    (.TESTPATT_ENABLE, ⟨32, 18, 1⟩), (.TESTPATT1, ⟨32, 20, 4⟩), (.TESTPATT2, ⟨32, 24, 4⟩),
    (.CURRDRIV, ⟨33, 0, 3⟩), (.CALPULSE_ENABLE, ⟨33, 4, 1⟩), (.CALPULSE_POLARITY, ⟨33, 5, 1⟩),
    (.LATENCY, ⟨34, 0, 9⟩), (.BCFLAG_ENABLE, ⟨34, 23, 1⟩), (.BCOFFSET, ⟨34, 24, 8⟩),
    (.DETMODE, ⟨35, 0, 2⟩), (.MAX_CLUSTER, ⟨35, 12, 6⟩), (.MAX_CLUSTER_ENABLE, ⟨35, 18, 1⟩),
    (.EN_CLUSTER_EMPTY, ⟨36, 0, 1⟩), (.EN_CLUSTER_FULL, ⟨36, 1, 1⟩),
    (.EN_CLUSTER_OVFL, ⟨36, 2, 1⟩), (.EN_REGFIFO_EMPTY, ⟨36, 3, 1⟩),
    (.EN_REGFIFO_FULL, ⟨36, 4, 1⟩), (.EN_REGFIFO_OVFL, ⟨36, 5, 1⟩), (.EN_LPFIFO_EMPTY, ⟨36, 6, 1⟩),
    (.EN_LPFIFO_FULL, ⟨36, 7, 1⟩), (.EN_PRFIFO_EMPTY, ⟨36, 8, 1⟩), (.EN_PRFIFO_FULL, ⟨36, 9, 1⟩),
    (.EN_LCB_LOCKED, ⟨36, 10, 1⟩), (.EN_LCB_DECODE_ERR, ⟨36, 11, 1⟩),
    (.EN_LCB_ERRCNT_OVFL, ⟨36, 12, 1⟩), (.EN_LCB_SCMD_ERR, ⟨36, 13, 1⟩),
    (.LCB_ERRCOUNT_THR, ⟨38, 0, 16⟩)]

def s_abcsubregdefs_v1 : List (ABCStarSubRegister × SubRegisterInfo) :=
  [(.RRFORCE, ⟨0, 0, 1⟩), (.WRITEDISABLE, ⟨0, 1, 1⟩), (.STOPHPR, ⟨0, 2, 1⟩), (.TESTHPR, ⟨0, 3, 1⟩),
    (.EFUSEL, ⟨0, 4, 1⟩), (.LCBERRCNTCLR, ⟨0, 5, 1⟩), (.ADCRESET, ⟨0, 6, 1⟩), (.BVREF, ⟨1, 0, 5⟩),
    (.BIREF, ⟨1, 5, 5⟩), (.B8BREF, ⟨1, 10, 5⟩), (.BTRANGE, ⟨1, 15, 5⟩), (.BVT, ⟨1, 20, 8⟩),
    (.DIS_CLK, ⟨1, 28, 3⟩), (.LCB_SELF_TEST_ENABLE, ⟨1, 31, 1⟩), (.STR_DEL_R, ⟨2, 0, 2⟩),
    (.STR_DEL, ⟨2, 2, 6⟩), (.COMBIAS, ⟨2, 8, 5⟩), (.BCAL, ⟨2, 13, 9⟩), (.DATA_IDLE, ⟨2, 22, 4⟩),
    (.EN_GLITCH_A, ⟨2, 26, 1⟩), (.EN_GLITCH_B, ⟨2, 27, 1⟩), (.EN_GLITCH_C, ⟨2, 28, 1⟩),
    (.EN_GLITCH_V, ⟨2, 29, 1⟩), (.EN_GLITCH_ADC, ⟨2, 30, 1⟩), (.RING_OSC_EN, ⟨2, 31, 1⟩),
    (.ADC_BIAS, ⟨3, 0, 4⟩), (.ADC_CH, ⟨3, 4, 4⟩), (.ADC_ENABLE, ⟨3, 8, 1⟩),
    (.BTMUX_DEC, ⟨3, 9, 4⟩), (.BTMUXD, ⟨3, 13, 1⟩), (.A_S_DEC, ⟨3, 14, 5⟩), (.A_LOW, ⟨3, 19, 1⟩),
    (.A_EN_CTRL, ⟨3, 20, 1⟩), (.D_S_DEC, ⟨3, 21, 5⟩), (.D_LOW, ⟨3, 26, 1⟩),
    (.D_EN_CTRL, ⟨3, 27, 1⟩), (.EN_OUT_DECODER, ⟨3, 28, 4⟩), (.TEST_PULSE_ENABLE, ⟨32, 0, 1⟩),
    (.ENCOUNT, ⟨32, 1, 1⟩), (.MASKHPR, ⟨32, 2, 1⟩), (.PR_ENABLE, ⟨32, 3, 1⟩),
    (.LP_ENABLE, ⟨32, 4, 1⟩), (.RRMODE, ⟨32, 5, 2⟩), (.TM, ⟨32, 7, 2⟩),
    (.TESTPATT_ENABLE, ⟨32, 9, 1⟩), (.TESTPATT1, ⟨32, 10, 4⟩), (.TESTPATT2, ⟨32, 14, 4⟩),
    (.CURRDRIV, ⟨32, 18, 3⟩), (.CALPULSE_ENABLE, ⟨32, 21, 1⟩), (.CALPULSE_POLARITY, ⟨32, 22, 1⟩),
    (.LATENCY, ⟨32, 23, 9⟩), (.DTESTOUTSEL, ⟨33, 0, 7⟩), (.DETMODE, ⟨33, 7, 2⟩),
    (.MAX_CLUSTER, ⟨33, 9, 6⟩), (.MAX_CLUSTER_ENABLE, ⟨33, 15, 1⟩),
    (.V0_READOUT_MODE, ⟨33, 21, 1⟩), (.DIS_CLKS_EN, ⟨33, 22, 1⟩), (.LCB_ERRCOUNT_THR, ⟨33, 23, 8⟩),
    (.READOUT_TIMEOUT_ENABLE, ⟨33, 31, 1⟩)]

def abcSubRegDefs (version_1 : Bool) : List (ABCStarSubRegister × SubRegisterInfo) :=
  if version_1 then s_abcsubregdefs_v1 else s_abcsubregdefs_v0

inductive HCCStarSubRegister where
  | STOPHPR | TESTHPR | CFD_BC_FINEDELAY | CFD_BC_COARSEDELAY | CFD_PRLP_FINEDELAY
  | CFD_PRLP_COARSEDELAY | HFD_LCBA_FINEDELAY | FD_RCLK_FINEDELAY | LCBA_DELAY160
  | FD_DATAIN0_FINEDELAY | FD_DATAIN1_FINEDELAY | FD_DATAIN2_FINEDELAY | FD_DATAIN3_FINEDELAY
  | FD_DATAIN4_FINEDELAY | FD_DATAIN5_FINEDELAY | FD_DATAIN6_FINEDELAY | FD_DATAIN7_FINEDELAY
  | FD_DATAIN8_FINEDELAY | FD_DATAIN9_FINEDELAY | FD_DATAIN10_FINEDELAY | EPLLICP | EPLLCAP
  | EPLLRES | EPLLREFFREQ | EPLLENABLEPHASE | EPLLPHASE320A | EPLLPHASE320B | EPLLPHASE320C
  | EPLLPHASE160A | EPLLPHASE160B | EPLLPHASE160C | STVCLKOUTCUR | STVCLKOUTEN | LCBOUTCUR
  | LCBOUTEN | R3L1OUTCUR | R3L1OUTEN | BCHYBCUR | BCHYBEN | LCBAHYBCUR | LCBAHYBEN | PRLPHYBCUR
  | PRLPHYBEN | RCLKHYBCUR | RCLKHYBEN | DATA1CUR | DATA1ENPRE | DATA1ENABLE | DATA1TERM
  | DATACLKCUR | DATACLKENPRE | DATACLKENABLE | ICENABLE | ICTRANSSEL | TRIGMODE | ROSPEED | OPMODE
  | MAXNPACKETS | ENCODECNTL | ENCODE8B10B | PRBSMODE | TRIGMODEC | ROSPEEDC | OPMODEC
  | MAXNPACKETSC | ENCODECNTLC | ENCODE8B10BC | PRBSMODEC | BGSETTING | MASKHPR | GPO0 | GPO1
  | EFUSEPROGBIT | BCIDRSTDELAY | BCMMSQUELCH | ABCRESETB | AMACSSSH | ABCRESETBC | AMACSSSHC
  | LCBERRCOUNTTHR | R3L1ERRCOUNTTHR | AMENABLE | AMCALIB | AMSW0 | AMSW1 | AMSW2 | AMSW60 | AMSW80
  | AMSW100 | ANASET | THERMOFFSET | EPLLPHASE160 | CLK_DIS_EN | CLK_DIS_ENC | BG_RANGE_LOW
  | BGVDD_CNT_EN | CLK_DIS_PHASE | CLK_DIS_SEL | AM_INT_SLOPE | AM_RANGE
  deriving DecidableEq, Repr

def s_hccsubregdefs_common : List (HCCStarSubRegister × SubRegisterInfo) :=
  [(.STOPHPR, ⟨16, 0, 1⟩), (.TESTHPR, ⟨16, 1, 1⟩), (.CFD_BC_FINEDELAY, ⟨32, 0, 4⟩),
    (.CFD_BC_COARSEDELAY, ⟨32, 4, 2⟩), (.CFD_PRLP_FINEDELAY, ⟨32, 8, 4⟩),
    (.CFD_PRLP_COARSEDELAY, ⟨32, 12, 2⟩), (.HFD_LCBA_FINEDELAY, ⟨32, 16, 4⟩),
    (.FD_RCLK_FINEDELAY, ⟨32, 20, 4⟩), (.LCBA_DELAY160, ⟨32, 24, 2⟩),
    (.FD_DATAIN0_FINEDELAY, ⟨33, 0, 4⟩), (.FD_DATAIN1_FINEDELAY, ⟨33, 4, 4⟩),
    (.FD_DATAIN2_FINEDELAY, ⟨33, 8, 4⟩), (.FD_DATAIN3_FINEDELAY, ⟨33, 12, 4⟩),
    (.FD_DATAIN4_FINEDELAY, ⟨33, 16, 4⟩), (.FD_DATAIN5_FINEDELAY, ⟨33, 20, 4⟩),
    (.FD_DATAIN6_FINEDELAY, ⟨33, 24, 4⟩), (.FD_DATAIN7_FINEDELAY, ⟨33, 28, 4⟩),
    (.FD_DATAIN8_FINEDELAY, ⟨34, 0, 4⟩), (.FD_DATAIN9_FINEDELAY, ⟨34, 4, 4⟩),
    (.FD_DATAIN10_FINEDELAY, ⟨34, 8, 4⟩), (.EPLLICP, ⟨35, 0, 4⟩), (.EPLLCAP, ⟨35, 4, 2⟩),
    (.EPLLRES, ⟨35, 8, 4⟩), (.EPLLREFFREQ, ⟨35, 12, 2⟩), (.EPLLENABLEPHASE, ⟨35, 16, 8⟩),
    (.STVCLKOUTCUR, ⟨38, 0, 3⟩), (.STVCLKOUTEN, ⟨38, 3, 1⟩), (.LCBOUTCUR, ⟨38, 4, 3⟩),
    (.LCBOUTEN, ⟨38, 7, 1⟩), (.R3L1OUTCUR, ⟨38, 8, 3⟩), (.R3L1OUTEN, ⟨38, 11, 1⟩),
    (.BCHYBCUR, ⟨38, 12, 3⟩), (.BCHYBEN, ⟨38, 15, 1⟩), (.LCBAHYBCUR, ⟨38, 16, 3⟩),
    (.LCBAHYBEN, ⟨38, 19, 1⟩), (.PRLPHYBCUR, ⟨38, 20, 3⟩), (.PRLPHYBEN, ⟨38, 23, 1⟩),
    (.RCLKHYBCUR, ⟨38, 24, 3⟩), (.RCLKHYBEN, ⟨38, 27, 1⟩), (.DATA1CUR, ⟨39, 0, 3⟩),
    (.DATA1ENPRE, ⟨39, 3, 1⟩), (.DATA1ENABLE, ⟨39, 4, 1⟩), (.DATA1TERM, ⟨39, 5, 1⟩),
    (.DATACLKCUR, ⟨39, 16, 3⟩), (.DATACLKENPRE, ⟨39, 19, 1⟩), (.DATACLKENABLE, ⟨39, 20, 1⟩),
    (.ICENABLE, ⟨40, 0, 11⟩), (.ICTRANSSEL, ⟨40, 16, 4⟩), (.TRIGMODE, ⟨41, 0, 1⟩),
    (.ROSPEED, ⟨41, 4, 1⟩), (.OPMODE, ⟨41, 8, 2⟩), (.MAXNPACKETS, ⟨41, 12, 3⟩),
    (.ENCODECNTL, ⟨41, 16, 1⟩), (.ENCODE8B10B, ⟨41, 17, 1⟩), (.PRBSMODE, ⟨41, 18, 1⟩),
    (.TRIGMODEC, ⟨42, 0, 1⟩), (.ROSPEEDC, ⟨42, 4, 1⟩), (.OPMODEC, ⟨42, 8, 2⟩),
    (.MAXNPACKETSC, ⟨42, 12, 3⟩), (.ENCODECNTLC, ⟨42, 16, 1⟩), (.ENCODE8B10BC, ⟨42, 17, 1⟩),
    (.PRBSMODEC, ⟨42, 18, 1⟩), (.BGSETTING, ⟨43, 0, 5⟩), (.MASKHPR, ⟨43, 8, 1⟩),
    (.GPO0, ⟨43, 12, 1⟩), (.GPO1, ⟨43, 13, 1⟩), (.EFUSEPROGBIT, ⟨43, 16, 5⟩),
    (.BCIDRSTDELAY, ⟨44, 0, 9⟩), (.BCMMSQUELCH, ⟨44, 16, 11⟩), (.ABCRESETB, ⟨45, 0, 1⟩),
    (.AMACSSSH, ⟨45, 4, 1⟩), (.ABCRESETBC, ⟨46, 0, 1⟩), (.AMACSSSHC, ⟨46, 4, 1⟩),
    (.LCBERRCOUNTTHR, ⟨47, 0, 16⟩), (.R3L1ERRCOUNTTHR, ⟨47, 16, 16⟩), (.AMENABLE, ⟨48, 0, 1⟩),
    (.AMCALIB, ⟨48, 4, 1⟩), (.ANASET, ⟨48, 16, 3⟩), (.THERMOFFSET, ⟨48, 20, 4⟩)]

def s_hccsubregdefs_v0 : List (HCCStarSubRegister × SubRegisterInfo) :=
  [(.EPLLPHASE320A, ⟨36, 0, 4⟩), (.EPLLPHASE320B, ⟨36, 4, 4⟩), (.EPLLPHASE320C, ⟨36, 8, 4⟩),
    (.EPLLPHASE160A, ⟨37, 0, 4⟩), (.EPLLPHASE160B, ⟨37, 8, 4⟩), (.EPLLPHASE160C, ⟨37, 16, 4⟩),
    (.AMSW0, ⟨48, 8, 1⟩), (.AMSW1, ⟨48, 9, 1⟩), (.AMSW2, ⟨48, 10, 1⟩), (.AMSW60, ⟨48, 12, 1⟩),
    (.AMSW80, ⟨48, 13, 1⟩), (.AMSW100, ⟨48, 14, 1⟩)]

def s_hccsubregdefs_v1 : List (HCCStarSubRegister × SubRegisterInfo) :=
  [(.EPLLPHASE160, ⟨35, 29, 3⟩), (.CLK_DIS_EN, ⟨41, 20, 1⟩), (.CLK_DIS_ENC, ⟨42, 20, 1⟩),
    (.BG_RANGE_LOW, ⟨43, 5, 1⟩), (.BGVDD_CNT_EN, ⟨43, 7, 1⟩), (.CLK_DIS_PHASE, ⟨43, 24, 2⟩),
    (.CLK_DIS_SEL, ⟨43, 28, 2⟩), (.AM_INT_SLOPE, ⟨48, 8, 4⟩), (.AM_RANGE, ⟨48, 12, 1⟩)]

def hccSubRegDefs (version_1 : Bool) : List (HCCStarSubRegister × SubRegisterInfo) :=
  s_hccsubregdefs_common ++ if version_1 then s_hccsubregdefs_v1 else s_hccsubregdefs_v0

/-! ## Setters and getters -/

namespace RegisterSet

variable {addresses : List Nat} (s : RegisterSet addresses)

def setSubRegister (info : SubRegisterInfo) (cfgBits : UInt32) :
    Outcome SubRegisterFailure (RegisterSet addresses) :=
  match s.get info.m_regAddress with
  | .error _ => ⟨some .outOfRange, s⟩
  | .ok reg =>
      match info.updateValue reg cfgBits with
      | none => ⟨some .invalidBits, s⟩
      | some reg => ⟨none, ⟨Function.update s.value info.m_regAddress reg⟩⟩

def getSubRegister (info : SubRegisterInfo) : Except SubRegisterFailure Nat :=
  match s.get info.m_regAddress with
  | .error _ => .error .outOfRange
  | .ok reg => .ok (info.getValue reg.toNat)

variable {Name : Type} [DecidableEq Name]

/-- The field of a name is looked up first, `subRegFromEnum`. -/
def setNamed (defs : List (Name × SubRegisterInfo)) (subReg : Name) (value : UInt32) :
    Outcome SubRegisterFailure (RegisterSet addresses) :=
  match defs.lookup subReg with
  | none => ⟨some .badSubRegister, s⟩
  | some info => s.setSubRegister info value

def getNamed (defs : List (Name × SubRegisterInfo)) (subReg : Name) :
    Except SubRegisterFailure Nat :=
  match defs.lookup subReg with
  | none => .error .badSubRegister
  | some info => s.getSubRegister info

end RegisterSet

namespace AbcCfg

variable (abc : AbcCfg)

/-- `setSubRegisterValue`, by name. -/
def setSubRegister (subReg : ABCStarSubRegister) (value : UInt32) :
    Outcome SubRegisterFailure AbcCfg :=
  let out := abc.registers.setNamed (abcSubRegDefs abc.version_1) subReg value
  ⟨out.thrown, { abc with registers := out.state }⟩

/-- `getSubRegisterValue`, by name. -/
def getSubRegister (subReg : ABCStarSubRegister) : Except SubRegisterFailure Nat :=
  abc.registers.getNamed (abcSubRegDefs abc.version_1) subReg

end AbcCfg

namespace HccCfg

variable (hcc : HccCfg)

/-- `setSubRegisterValue`, by name. -/
def setSubRegister (subReg : HCCStarSubRegister) (value : UInt32) :
    Outcome SubRegisterFailure HccCfg :=
  let out := hcc.registers.setNamed (hccSubRegDefs hcc.version_1) subReg value
  ⟨out.thrown, { hcc with registers := out.state }⟩

/-- `getSubRegisterValue`, by name. -/
def getSubRegister (subReg : HCCStarSubRegister) : Except SubRegisterFailure Nat :=
  hcc.registers.getNamed (hccSubRegDefs hcc.version_1) subReg

end HccCfg

end Yarr.Star

/-!
## Laws of sub-registers

The fields of a table lie apart from each other, so a value that is stored in
one of them leaves the others as they are.
-/

namespace Yarr.Star

namespace SubRegisterInfo

/-- The field lies in a register of 32 bits. -/
structure Inside (info : SubRegisterInfo) : Prop where
  bits : info.m_bOffset + info.m_width ≤ 32
  width : info.m_width < 32
  offset : info.m_bOffset < 32

variable {info : SubRegisterInfo}

def Inside.field (h : info.Inside) : BitField 32 := ⟨info.m_bOffset, info.m_width, h.bits⟩

theorem Inside.maskBits (h : info.Inside) : info.maskBits.toBitVec = h.field.mask := by
  have hwidth := h.width
  have hpow : 2 ^ info.m_width < 2 ^ 32 := Nat.pow_lt_pow_right (by omega) hwidth
  have hpos := Nat.two_pow_pos info.m_width
  unfold SubRegisterInfo.maskBits
  rw [UInt32.toBitVec_sub, Bits.toBitVec_shiftLeft_ofNat 1 hwidth]
  show 1#32 <<< info.m_width - 1#32 = BitVec.ofNat 32 (2 ^ info.m_width - 1)
  apply BitVec.eq_of_toNat_eq
  rw [BitVec.toNat_sub, BitVec.toNat_shiftLeft, BitVec.toNat_ofNat, BitVec.toNat_ofNat,
    Nat.shiftLeft_eq]
  omega

theorem Inside.extra_iff (h : info.Inside) (v : UInt32) :
    v &&& ~~~info.maskBits = 0 ↔ v.toNat < 2 ^ info.m_width := by
  have hbits : v &&& ~~~info.maskBits = 0 ↔ v.toBitVec &&& h.field.mask = v.toBitVec := by
    rw [← UInt32.toBitVec_inj, UInt32.toBitVec_and, UInt32.toBitVec_not, h.maskBits]
    constructor
    · intro hzero
      apply BitVec.eq_of_getLsbD_eq
      intro i hi
      have hbit := congrArg (fun x => x.getLsbD i) hzero
      simp only [BitVec.getLsbD_and, BitVec.getLsbD_not, hi, decide_true, Bool.true_and,
        UInt32.toBitVec_zero, BitVec.getLsbD_zero] at hbit
      rw [BitVec.getLsbD_and]
      revert hbit
      cases v.toBitVec.getLsbD i <;> cases h.field.mask.getLsbD i <;> simp
    · intro hsame
      rw [← hsame, BitVec.and_assoc, BitVec.and_not_self]
      exact BitVec.and_zero
  have hmod : (v.toBitVec &&& h.field.mask).toNat = v.toNat % 2 ^ info.m_width :=
    h.field.toNat_and_mask v.toBitVec
  rw [hbits, ← BitVec.toNat_inj, hmod]
  exact Nat.mod_eq_iff_lt (Nat.two_pow_pos _).ne'

theorem Inside.write_eq (h : info.Inside) (reg v : UInt32) :
    (reg &&& ~~~(info.maskBits <<< UInt32.ofNat info.m_bOffset)) |||
        ((v &&& info.maskBits) <<< UInt32.ofNat info.m_bOffset) =
      ⟨h.field.write reg.toBitVec v.toBitVec⟩ := by
  apply UInt32.toBitVec_inj.mp
  simp only [UInt32.toBitVec_or, UInt32.toBitVec_and, UInt32.toBitVec_not,
    Bits.toBitVec_shiftLeft_ofNat _ h.offset, h.maskBits]
  rfl

theorem Inside.updateValue_eq (h : info.Inside) (reg v : UInt32) :
    info.updateValue reg v =
      if v.toNat < 2 ^ info.m_width then some ⟨h.field.write reg.toBitVec v.toBitVec⟩ else none := by
  unfold SubRegisterInfo.updateValue
  by_cases hv : v.toNat < 2 ^ info.m_width
  · rw [if_neg (not_not.mpr ((h.extra_iff v).mpr hv)), if_pos hv]
    exact congrArg some (h.write_eq reg v)
  · rw [if_pos (mt (h.extra_iff v).mp hv), if_neg hv]

theorem Inside.getValue_eq (h : info.Inside) (reg : UInt32) :
    info.getValue reg.toNat = (h.field.read reg.toBitVec).toNat := by
  have hmask : (1 <<< info.m_width) - 1 = 2 ^ info.m_width - 1 := by rw [Nat.one_shiftLeft]
  have hread : (h.field.read reg.toBitVec).toNat =
      (reg.toNat >>> info.m_bOffset) % 2 ^ info.m_width := by
    unfold BitField.read
    rw [h.field.toNat_and_mask, BitVec.toNat_ushiftRight]
    rfl
  unfold SubRegisterInfo.getValue
  rw [hread, hmask, Nat.shiftRight_and_distrib, Nat.shiftLeft_shiftRight,
    Nat.and_two_pow_sub_one_eq_mod]

theorem Inside.getValue_lt (h : info.Inside) (reg : UInt32) :
    info.getValue reg.toNat < 2 ^ info.m_width := by
  rw [h.getValue_eq]
  unfold BitField.read
  rw [h.field.toNat_and_mask]
  exact Nat.mod_lt _ (Nat.two_pow_pos _)

/-- No bit of a register is in both fields. -/
def Apart (info other : SubRegisterInfo) : Prop :=
  info.m_regAddress = other.m_regAddress →
    info.m_bOffset + info.m_width ≤ other.m_bOffset ∨
      other.m_bOffset + other.m_width ≤ info.m_bOffset

instance (info other : SubRegisterInfo) : Decidable (info.Apart other) :=
  inferInstanceAs (Decidable (_ → _))

theorem Apart.symm {other : SubRegisterInfo} (h : info.Apart other) : other.Apart info :=
  fun haddr => (h haddr.symm).symm

instance (info : SubRegisterInfo) : Decidable info.Inside :=
  decidable_of_iff (info.m_bOffset + info.m_width ≤ 32 ∧ info.m_width < 32 ∧ info.m_bOffset < 32)
    ⟨fun h => ⟨h.1, h.2.1, h.2.2⟩, fun h => ⟨h.bits, h.width, h.offset⟩⟩

theorem Inside.getValue_write (h : info.Inside) (reg v : UInt32) :
    info.getValue (UInt32.toNat ⟨h.field.write reg.toBitVec v.toBitVec⟩) =
      v.toNat % 2 ^ info.m_width := by
  rw [h.getValue_eq]
  show (h.field.read (h.field.write reg.toBitVec v.toBitVec)).toNat = _
  rw [h.field.read_write, h.field.toNat_and_mask]
  rfl

theorem Inside.getValue_apart {other : SubRegisterInfo} (h : info.Inside) (hother : other.Inside)
    (hapart : info.Apart other) (value : Nat → UInt32) (v : UInt32) :
    other.getValue (Function.update value info.m_regAddress
        ⟨h.field.write (value info.m_regAddress).toBitVec v.toBitVec⟩ other.m_regAddress).toNat =
      other.getValue (value other.m_regAddress).toNat := by
  by_cases haddr : other.m_regAddress = info.m_regAddress
  · rw [haddr, Function.update_self, hother.getValue_eq, hother.getValue_eq]
    apply congrArg BitVec.toNat
    apply BitField.read_congr
    intro i hi
    have hnot : ¬ h.field.Covers i := by
      intro hcov
      have hlow := hi.1
      have hhigh := hi.2
      have hlow' := hcov.1
      have hhigh' := hcov.2
      dsimp only [Inside.field] at hlow hhigh hlow' hhigh'
      rcases hapart haddr.symm with hle | hle <;> omega
    rw [BitField.getLsbD_write, if_neg hnot]
  · rw [Function.update_of_ne haddr]

end SubRegisterInfo

/-! ## Tables -/

section Tables

variable {Name : Type} [DecidableEq Name] {addresses : List Nat}

/-- A table of fields: each name once, each field inside a register that is there. -/
structure DisjointFields (addresses : List Nat) (defs : List (Name × SubRegisterInfo)) : Prop where
  names : (defs.map Prod.fst).Nodup
  registers : ∀ d ∈ defs, d.2.m_regAddress ∈ addresses
  inside : ∀ d ∈ defs, d.2.Inside
  apart : defs.Pairwise fun d e => d.2.Apart e.2

omit [DecidableEq Name] in
theorem DisjointFields.apart_of_ne {defs : List (Name × SubRegisterInfo)}
    (h : DisjointFields addresses defs) {d e : Name × SubRegisterInfo} (hd : d ∈ defs) (he : e ∈ defs)
    (hne : d.1 ≠ e.1) : d.2.Apart e.2 := by
  have hsymm : Std.Symm fun d e : Name × SubRegisterInfo => d.2.Apart e.2 :=
    ⟨fun _ _ hapart => hapart.symm⟩
  exact h.apart.forall hd he fun heq => hne (congrArg Prod.fst heq)

theorem mem_of_lookup {defs : List (Name × SubRegisterInfo)} {subReg : Name}
    {info : SubRegisterInfo} (h : defs.lookup subReg = some info) : (subReg, info) ∈ defs := by
  rcases List.lookup_eq_some_iff.mp h with ⟨before, after, heq, _⟩
  rw [heq]
  exact List.mem_append_right _ List.mem_cons_self

namespace RegisterSet

variable {defs : List (Name × SubRegisterInfo)} (s : RegisterSet addresses)

theorem setNamed_of_lookup (hdefs : DisjointFields addresses defs) {subReg : Name}
    {info : SubRegisterInfo} (h : defs.lookup subReg = some info) (value : UInt32) :
    s.setNamed defs subReg value =
      if value.toNat < 2 ^ info.m_width then
        ⟨none, ⟨Function.update s.value info.m_regAddress
          ⟨(hdefs.inside _ (mem_of_lookup h)).field.write
            (s.value info.m_regAddress).toBitVec value.toBitVec⟩⟩⟩
      else ⟨some .invalidBits, s⟩ := by
  have hmem := mem_of_lookup h
  have hget : s.get info.m_regAddress = .ok (s.value info.m_regAddress) :=
    if_pos (hdefs.registers _ hmem)
  unfold setNamed
  rw [h]
  show s.setSubRegister info value = _
  unfold setSubRegister
  rw [hget]
  show (match info.updateValue (s.value info.m_regAddress) value with
    | none => _
    | some reg => _) = _
  rw [(hdefs.inside _ hmem).updateValue_eq]
  by_cases hv : value.toNat < 2 ^ info.m_width
  · rw [if_pos hv, if_pos hv]
  · rw [if_neg hv, if_neg hv]

theorem getNamed_of_lookup (hdefs : DisjointFields addresses defs) {subReg : Name}
    {info : SubRegisterInfo} (h : defs.lookup subReg = some info) :
    s.getNamed defs subReg = .ok (info.getValue (s.value info.m_regAddress).toNat) := by
  have hget : s.get info.m_regAddress = .ok (s.value info.m_regAddress) :=
    if_pos (hdefs.registers _ (mem_of_lookup h))
  unfold getNamed
  rw [h]
  show s.getSubRegister info = _
  unfold getSubRegister
  rw [hget]

end RegisterSet

end Tables

/-- A setter for fields of `width` bits: a value that fits is stored in its field and nowhere else,
any other value is refused and nothing changes. -/
structure FieldSetter {E S Name : Type} (set : S → Name → UInt32 → Outcome E S)
    (get : S → Name → Except E Nat) (width : S → Name → Option Nat) : Prop where
  accepted : ∀ s subReg value, (set s subReg value).thrown = none ↔
    ∃ w, width s subReg = some w ∧ value.toNat < 2 ^ w
  stored : ∀ s subReg value, (set s subReg value).thrown = none →
    get (set s subReg value).state subReg = .ok value.toNat
  others : ∀ s subReg value other, (set s subReg value).thrown = none → other ≠ subReg →
    get (set s subReg value).state other = get s other
  refused : ∀ s subReg value, (set s subReg value).thrown ≠ none → (set s subReg value).state = s

theorem RegisterSet.fieldSetter {Name : Type} [DecidableEq Name] {addresses : List Nat}
    {defs : List (Name × SubRegisterInfo)} (hdefs : DisjointFields addresses defs) :
    FieldSetter (fun s : RegisterSet addresses => s.setNamed defs) (fun s => s.getNamed defs)
      fun _ subReg => (defs.lookup subReg).map SubRegisterInfo.m_width where
  accepted s subReg value := by
    cases hlookup : defs.lookup subReg with
    | none =>
        rw [setNamed, hlookup]
        simp
    | some info =>
        rw [s.setNamed_of_lookup hdefs hlookup]
        by_cases hv : value.toNat < 2 ^ info.m_width
        · rw [if_pos hv]
          exact ⟨fun _ => ⟨_, rfl, hv⟩, fun _ => rfl⟩
        · rw [if_neg hv]
          apply iff_of_false (Option.some_ne_none _)
          rintro ⟨w, hw, hlt⟩
          rw [← Option.some_inj.mp hw] at hlt
          exact hv hlt
  stored s subReg value h := by
    cases hlookup : defs.lookup subReg with
    | none =>
        rw [setNamed, hlookup] at h
        cases h
    | some info =>
        rw [s.setNamed_of_lookup hdefs hlookup] at h ⊢
        by_cases hv : value.toNat < 2 ^ info.m_width
        · rw [if_pos hv, getNamed_of_lookup _ hdefs hlookup]
          dsimp only
          rw [Function.update_self, SubRegisterInfo.Inside.getValue_write, Nat.mod_eq_of_lt hv]
        · rw [if_neg hv] at h
          cases h
  others s subReg value other h hne := by
    cases hlookup : defs.lookup subReg with
    | none =>
        rw [setNamed, hlookup] at h
        cases h
    | some info =>
        rw [s.setNamed_of_lookup hdefs hlookup] at h ⊢
        by_cases hv : value.toNat < 2 ^ info.m_width
        · rw [if_pos hv]
          cases hfind : defs.lookup other with
          | none => rw [getNamed, getNamed, hfind]
          | some info' =>
              have hmem := mem_of_lookup hlookup
              have hmem' := mem_of_lookup hfind
              rw [getNamed_of_lookup _ hdefs hfind, getNamed_of_lookup _ hdefs hfind]
              exact congrArg Except.ok (SubRegisterInfo.Inside.getValue_apart _
                (hdefs.inside _ hmem') (hdefs.apart_of_ne hmem hmem' hne.symm) _ _)
        · rw [if_neg hv] at h
          cases h
  refused s subReg value h := by
    cases hlookup : defs.lookup subReg with
    | none => rw [setNamed, hlookup]
    | some info =>
        rw [s.setNamed_of_lookup hdefs hlookup] at h ⊢
        by_cases hv : value.toNat < 2 ^ info.m_width
        · rw [if_pos hv] at h
          exact absurd rfl h
        · rw [if_neg hv]

/-! ## The tables of the chips -/

/-- The bits of a field among those of all registers. -/
def SubRegisterInfo.bitmap (info : SubRegisterInfo) : Nat :=
  (2 ^ info.m_width - 1) <<< (32 * info.m_regAddress + info.m_bOffset)

theorem SubRegisterInfo.apart_of_bitmap {info other : SubRegisterInfo} (hwidth : 0 < info.m_width)
    (hwidth' : 0 < other.m_width) (h : info.bitmap &&& other.bitmap = 0) : info.Apart other := by
  intro haddress
  by_contra hover
  have hboth : (info.bitmap &&& other.bitmap).testBit
      (32 * info.m_regAddress + max info.m_bOffset other.m_bOffset) = true := by
    rw [Nat.testBit_and, SubRegisterInfo.bitmap, SubRegisterInfo.bitmap,
      testBit_run (by omega) (by omega), testBit_run (by omega) (by omega)]
    rfl
  rw [h, Nat.zero_testBit] at hboth
  exact Bool.false_ne_true hboth

theorem pairwise_apart {Name : Type} {defs : List (Name × SubRegisterInfo)}
    (hwidth : ∀ d ∈ defs, 0 < d.2.m_width)
    (h : disjointMaps 0 (defs.map fun d => d.2.bitmap) = true) :
    defs.Pairwise fun d e => d.2.Apart e.2 :=
  (List.pairwise_map.mp (pairwise_of_disjointMaps h)).imp_of_mem fun hd he =>
    SubRegisterInfo.apart_of_bitmap (hwidth _ hd) (hwidth _ he)

theorem abcSubRegDefs_disjoint (version_1 : Bool) :
    DisjointFields (abcAddresses version_1) (abcSubRegDefs version_1) where
  names := by
    have hall : ∀ v, disjointMaps 0 (((abcSubRegDefs v).map Prod.fst).map fun name =>
        2 ^ name.ctorIdx) = true := by decide +kernel
    exact nodup_of_disjointMaps (hall version_1)
  registers := by
    have hall : ∀ v, ∀ d ∈ abcSubRegDefs v, d.2.m_regAddress ∈ abcAddresses v := by
      decide +kernel
    exact hall version_1
  inside := by
    have hall : ∀ v, ∀ d ∈ abcSubRegDefs v, d.2.Inside := by decide +kernel
    exact hall version_1
  apart := by
    have hwidth : ∀ v, ∀ d ∈ abcSubRegDefs v, 0 < d.2.m_width := by decide +kernel
    have hall : ∀ v, disjointMaps 0 ((abcSubRegDefs v).map fun d => d.2.bitmap) = true := by
      decide +kernel
    exact pairwise_apart (hwidth version_1) (hall version_1)

theorem hccSubRegDefs_disjoint (version_1 : Bool) :
    DisjointFields (hccAddresses version_1) (hccSubRegDefs version_1) where
  names := by
    have hall : ∀ v, disjointMaps 0 (((hccSubRegDefs v).map Prod.fst).map fun name =>
        2 ^ name.ctorIdx) = true := by decide +kernel
    exact nodup_of_disjointMaps (hall version_1)
  registers := by
    have hall : ∀ v, ∀ d ∈ hccSubRegDefs v, d.2.m_regAddress ∈ hccAddresses v := by
      decide +kernel
    exact hall version_1
  inside := by
    have hall : ∀ v, ∀ d ∈ hccSubRegDefs v, d.2.Inside := by decide +kernel
    exact hall version_1
  apart := by
    have hwidth : ∀ v, ∀ d ∈ hccSubRegDefs v, 0 < d.2.m_width := by decide +kernel
    have hall : ∀ v, disjointMaps 0 ((hccSubRegDefs v).map fun d => d.2.bitmap) = true := by
      decide +kernel
    exact pairwise_apart (hwidth version_1) (hall version_1)

/-- The width of a field that the version of the chip has. -/
def AbcCfg.fieldWidth (abc : AbcCfg) (subReg : ABCStarSubRegister) : Option Nat :=
  ((abcSubRegDefs abc.version_1).lookup subReg).map SubRegisterInfo.m_width

def HccCfg.fieldWidth (hcc : HccCfg) (subReg : HCCStarSubRegister) : Option Nat :=
  ((hccSubRegDefs hcc.version_1).lookup subReg).map SubRegisterInfo.m_width

/-- The value of a field that the chip has. -/
def AbcCfg.fieldValue (abc : AbcCfg) (subReg : ABCStarSubRegister) : Nat :=
  match abc.getSubRegister subReg with
  | .ok value => value
  | .error _ => 0

theorem AbcCfg.getSubRegister_eq (abc : AbcCfg) {subReg : ABCStarSubRegister}
    (h : (abc.fieldWidth subReg).isSome) :
    abc.getSubRegister subReg = .ok (abc.fieldValue subReg) := by
  rcases Option.isSome_iff_exists.mp h with ⟨w, hw⟩
  rcases Option.map_eq_some_iff.mp hw with ⟨info, hlookup, _⟩
  have hget : abc.getSubRegister subReg = _ :=
    abc.registers.getNamed_of_lookup (abcSubRegDefs_disjoint abc.version_1) hlookup
  unfold AbcCfg.fieldValue
  rw [hget]

theorem AbcCfg.fieldSetter :
    FieldSetter AbcCfg.setSubRegister AbcCfg.getSubRegister AbcCfg.fieldWidth := by
  have h := fun v => RegisterSet.fieldSetter (abcSubRegDefs_disjoint v)
  exact {
    accepted := fun abc => (h abc.version_1).accepted abc.registers
    stored := fun abc => (h abc.version_1).stored abc.registers
    others := fun abc => (h abc.version_1).others abc.registers
    refused := fun abc subReg value hthrown =>
      congrArg (fun registers => { abc with registers := registers })
        ((h abc.version_1).refused abc.registers subReg value hthrown) }

theorem HccCfg.fieldSetter :
    FieldSetter HccCfg.setSubRegister HccCfg.getSubRegister HccCfg.fieldWidth := by
  have h := fun v => RegisterSet.fieldSetter (hccSubRegDefs_disjoint v)
  exact {
    accepted := fun hcc => (h hcc.version_1).accepted hcc.registers
    stored := fun hcc => (h hcc.version_1).stored hcc.registers
    others := fun hcc => (h hcc.version_1).others hcc.registers
    refused := fun hcc subReg value hthrown =>
      congrArg (fun registers => { hcc with registers := registers })
        ((h hcc.version_1).refused hcc.registers subReg value hthrown) }

/-! ## Single registers -/

namespace AbcCfg

variable (abc : AbcCfg) {subReg : ABCStarSubRegister} {info : SubRegisterInfo}

theorem fieldValue_of_lookup (h : (abcSubRegDefs abc.version_1).lookup subReg = some info) :
    abc.fieldValue subReg = info.getValue (abc.registers.value info.m_regAddress).toNat := by
  have hget : abc.getSubRegister subReg = _ :=
    abc.registers.getNamed_of_lookup (abcSubRegDefs_disjoint abc.version_1) h
  unfold fieldValue
  rw [hget]

@[simp] theorem m_abcID_setSubRegister (value : UInt32) :
    (abc.setSubRegister subReg value).state.m_abcID = abc.m_abcID := rfl

@[simp] theorem version_1_setSubRegister (value : UInt32) :
    (abc.setSubRegister subReg value).state.version_1 = abc.version_1 := rfl

theorem value_setSubRegister (h : (abcSubRegDefs abc.version_1).lookup subReg = some info)
    (value : UInt32) {addr : Nat} (hne : addr ≠ info.m_regAddress) :
    (abc.setSubRegister subReg value).state.registers.value addr = abc.registers.value addr := by
  show (abc.registers.setNamed (abcSubRegDefs abc.version_1) subReg value).state.value addr = _
  rw [abc.registers.setNamed_of_lookup (abcSubRegDefs_disjoint abc.version_1) h]
  split
  · exact Function.update_of_ne hne _ _
  · rfl

theorem thrown_setSubRegister (h : (abcSubRegDefs abc.version_1).lookup subReg = some info)
    {value : UInt32} (hvalue : value.toNat < 2 ^ info.m_width) :
    (abc.setSubRegister subReg value).thrown = none := by
  rw [fieldSetter.accepted]
  exact ⟨info.m_width, by rw [fieldWidth, h, Option.map_some], hvalue⟩

end AbcCfg

end Yarr.Star
