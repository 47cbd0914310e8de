import Yarr.Core.Indices
import Yarr.Rd53.GlobalCfg

/-!
# The registers of the chips

For ITKPIXV2 and RD53B one line for each line of `init`, in its order. For RD53A
the registers that go with the pixels and the double columns, and the latency of
the trigger.
-/

namespace Yarr

instance (priority := 2000) neZero_rd53 : NeZero 138 := ⟨by decide⟩
instance (priority := 2000) neZero_itkpixv2 : NeZero 157 := ⟨by decide⟩

end Yarr

namespace Yarr.Rd53

namespace Itkpixv2GlobalCfg

abbrev numRegs : Nat := 157

def PixPortal : RegDefault numRegs :=
  ⟨⟨0, by decide⟩, ⟨0, by decide⟩, 0, 16, by decide⟩

def PixRegionCol : RegDefault numRegs :=
  ⟨⟨1, by decide⟩, ⟨1, by decide⟩, 0, 16, by decide⟩

def PixRegionRow : RegDefault numRegs :=
  ⟨⟨2, by decide⟩, ⟨2, by decide⟩, 0, 16, by decide⟩

def PixBroadcast : RegDefault numRegs :=
  ⟨⟨3, by decide⟩, ⟨3, by decide⟩, 2, 1, by decide⟩

def PixConfMode : RegDefault numRegs :=
  ⟨⟨3, by decide⟩, ⟨3, by decide⟩, 1, 1, by decide⟩

def PixAutoRow : RegDefault numRegs :=
  ⟨⟨3, by decide⟩, ⟨3, by decide⟩, 0, 1, by decide⟩

def DiffTh1L : RegDefault numRegs :=
  ⟨⟨17, by decide⟩, ⟨17, by decide⟩, 0, 10, by decide⟩

def DiffTh1R : RegDefault numRegs :=
  ⟨⟨18, by decide⟩, ⟨18, by decide⟩, 0, 10, by decide⟩

def DiffTh1M : RegDefault numRegs :=
  ⟨⟨19, by decide⟩, ⟨19, by decide⟩, 0, 10, by decide⟩

def DiffTh2 : RegDefault numRegs :=
  ⟨⟨20, by decide⟩, ⟨20, by decide⟩, 0, 10, by decide⟩

def ReadTrigLatency : RegDefault numRegs :=
  ⟨⟨52, by decide⟩, ⟨52, by decide⟩, 0, 12, by decide⟩

def TruncTimeoutConf : RegDefault numRegs :=
  ⟨⟨53, by decide⟩, ⟨52, by decide⟩, 0, 12, by decide⟩

def InjVcalHigh : RegDefault numRegs :=
  ⟨⟨56, by decide⟩, ⟨56, by decide⟩, 0, 12, by decide⟩

def InjVcalMed : RegDefault numRegs :=
  ⟨⟨57, by decide⟩, ⟨57, by decide⟩, 0, 12, by decide⟩

/-! The registers of the core columns. -/

def EnCoreCol : Nat → RegDefault numRegs
  | 0 => ⟨42, 42, 0, 16, by decide⟩
  | 1 => ⟨41, 41, 0, 16, by decide⟩
  | 2 => ⟨40, 40, 0, 16, by decide⟩
  | _ => ⟨39, 39, 0, 6, by decide⟩

def EnCoreColCal : Nat → RegDefault numRegs
  | 0 => ⟨75, 75, 0, 16, by decide⟩
  | 1 => ⟨74, 74, 0, 16, by decide⟩
  | 2 => ⟨73, 73, 0, 16, by decide⟩
  | _ => ⟨72, 72, 0, 6, by decide⟩

def HitOrMask : Nat → RegDefault numRegs
  | 0 => ⟨121, 121, 0, 16, by decide⟩
  | 1 => ⟨120, 120, 0, 16, by decide⟩
  | 2 => ⟨119, 119, 0, 16, by decide⟩
  | _ => ⟨118, 118, 0, 6, by decide⟩

def PtotCoreColEn : Nat → RegDefault numRegs
  | 0 => ⟨69, 69, 0, 16, by decide⟩
  | 1 => ⟨68, 68, 0, 16, by decide⟩
  | 2 => ⟨67, 67, 0, 16, by decide⟩
  | _ => ⟨66, 66, 0, 6, by decide⟩

/-- One line of `init`, with address and word written out as there. -/
def line (name : String) (addr word bOffset bits : Nat) (value : UInt16)
    (known : addr < numRegs := by decide) (inside : word < numRegs := by decide)
    (fits : bOffset + bits ≤ 16 := by decide) : RegInit numRegs :=
  ⟨name, ⟨⟨addr, known⟩, ⟨word, inside⟩, bOffset, bits, fits⟩, value⟩

def regs : List (RegInit numRegs) := [
  ⟨"PixPortal", PixPortal, 0⟩,
  ⟨"PixRegionCol", PixRegionCol, 0⟩,
  ⟨"PixRegionRow", PixRegionRow, 0⟩,
  line "PixEnSeuCount" 3 3 4 1 0,
  line "PixHitSampleMode" 3 3 3 1 0,
  ⟨"PixBroadcast", PixBroadcast, 0⟩,
  ⟨"PixConfMode", PixConfMode, 1⟩,
  ⟨"PixAutoRow", PixAutoRow, 0⟩,
  line "PixDefaultConfig" 4 4 0 16 0x9CE2,
  line "PixDefaultConfigB" 5 5 0 16 0x631D,
  line "GcrDefaultConfig" 6 6 0 16 0xAC75,
  line "GcrDefaultConfigB" 7 7 0 16 0x538A,
  line "DiffPreampL" 8 8 0 10 800,
  line "DiffPreampR" 9 9 0 10 800,
  line "DiffPreampTL" 10 10 0 10 800,
  line "DiffPreampTR" 11 11 0 10 800,
  line "DiffPreampT" 12 12 0 10 800,
  line "DiffPreampM" 13 13 0 10 800,
  line "DiffPreComp" 14 14 0 10 350,
  line "DiffComp" 15 15 0 10 500,
  line "DiffVff" 16 16 0 10 160,
  ⟨"DiffTh1L", DiffTh1L, 350⟩,
  ⟨"DiffTh1R", DiffTh1R, 350⟩,
  ⟨"DiffTh1M", DiffTh1M, 350⟩,
  ⟨"DiffTh2", DiffTh2, 50⟩,
  line "DiffLcc" 21 21 0 10 100,
  line "DiffLccEn" 37 37 1 1 0,
  line "DiffFbCapEn" 37 37 0 1 0,
  line "LinPreampL" 22 22 0 10 300,
  line "LinPreampR" 23 23 0 10 300,
  line "LinPreampTL" 24 24 0 10 300,
  line "LinPreampTR" 25 25 0 10 300,
  line "LinPreampT" 26 26 0 10 300,
  line "LinPreampM" 27 27 0 10 300,
  line "LinFc" 28 28 0 10 20,
  line "LinKrumCurr" 29 29 0 10 50,
  line "LinRefKrum" 30 30 0 10 300,
  line "LinComp" 31 31 0 10 110,
  line "LinCompTa" 32 32 0 10 110,
  line "LinGdacL" 33 33 0 10 408,
  line "LinGdacR" 34 34 0 10 408,
  line "LinGdacM" 35 35 0 10 408,
  line "LinLdac" 36 36 0 10 100,
  line "SldoEnUndershuntA" 38 38 9 1 0,
  line "SldoEnUndershuntD" 38 38 8 1 0,
  line "SldoTrimA" 38 38 4 4 8,
  line "SldoTrimD" 38 38 0 4 8,
  line "EnCoreCol3" 39 39 0 6 63,
  line "EnCoreCol2" 40 40 0 16 65535,
  line "EnCoreCol1" 41 41 0 16 65535,
  line "EnCoreCol0" 42 42 0 16 65535,
  line "RstCoreCol3" 43 43 0 6 0,
  line "RstCoreCol2" 44 44 0 16 0,
  line "RstCoreCol1" 45 45 0 16 0,
  line "RstCoreCol0" 46 46 0 16 0,
  line "TwoLevelTrig" 47 47 9 1 0,
  line "Latency" 47 47 0 9 500,
  line "SelfTrigEn" 48 48 5 1 0,
  line "SelfTrigDigThrEn" 48 48 4 1 0,
  line "SelfTrigDigThr" 48 48 0 4 1,
  line "SelfTrigDelay" 49 49 5 10 512,
  line "SelfTrigMulti" 49 49 0 5 4,
  line "SelfTrigDeadtime" 50 50 0 16 64,
  line "SelfTrigPattern" 51 51 0 16 65534,
  line "DataReadDelay" 52 52 12 2 0,
  ⟨"ReadTrigLatency", ReadTrigLatency, 1000⟩,
  ⟨"TruncTimeoutConf", TruncTimeoutConf, 0⟩,
  line "InjDigEn" 54 54 7 1 0,
  line "InjAnaMode" 54 54 6 1 0,
  line "InjFineDelay" 54 54 0 6 5,
  line "FineDelayClk" 55 55 6 6 0,
  line "FineDelayData" 55 55 0 6 0,
  ⟨"InjVcalHigh", InjVcalHigh, 200⟩,
  ⟨"InjVcalMed", InjVcalMed, 200⟩,
  line "CapMeasEnPar" 58 58 2 1 0,
  line "CapMeasEn" 58 58 1 1 0,
  line "InjVcalRange" 58 58 0 1 1,
  line "CdrPhaseDetSel" 59 59 3 1 0,
  line "CdrClkSel" 59 59 0 3 0,
  line "Clk40En" 60 60 9 3 7,
  line "Clk160En" 60 60 6 3 7,
  line "ClkDataMergeEn" 60 60 3 3 7,
  line "ClkAuroraEn" 60 60 0 3 7,
  line "ChSyncLockThr" 61 61 0 5 31,
  line "GlobalPulseConf" 62 62 0 16 0,
  line "GlobalPulseWidth" 63 63 0 9 0,
  line "ServiceBlockEn" 64 64 8 1 1,
  line "ServiceBlockPeriod" 64 64 0 8 50,
  line "TotEnPtot" 65 65 12 1 0,
  line "TotEnPtoa" 65 65 11 1 0,
  line "TotEn80" 65 65 10 1 0,
  line "TotEn6b4b" 65 65 9 1 0,
  line "TotPtotLatency" 65 65 0 9 500,
  line "PtotCoreColEn3" 66 66 0 6 0,
  line "PtotCoreColEn2" 67 67 0 16 0,
  line "PtotCoreColEn1" 68 68 0 16 0,
  line "PtotCoreColEn0" 69 69 0 16 0,
  line "DataMergeInPol" 70 70 9 4 0,
  line "EnChipId" 70 70 8 1 0,
  line "DataMergeEnClkGate" 70 70 7 1 0,
  line "DataMergeSelClk" 70 70 6 1 0,
  line "DataMergeEn" 70 70 2 4 0,
  line "DataMergeEnBond" 70 70 1 1 0,
  line "DataMergeGpoSel" 70 70 0 1 0,
  line "DataMergeInMux3" 71 71 14 2 3,
  line "DataMergeInMux2" 71 71 12 2 2,
  line "DataMergeInMux1" 71 71 10 2 1,
  line "DataMergeInMux0" 71 71 8 2 0,
  line "DataMergeOutMux3" 71 71 6 2 0,
  line "DataMergeOutMux2" 71 71 4 2 1,
  line "DataMergeOutMux1" 71 71 2 2 2,
  line "DataMergeOutMux0" 71 71 0 2 3,
  line "EnCoreColCal3" 72 72 0 6 0,
  line "EnCoreColCal2" 73 73 0 16 0,
  line "EnCoreColCal1" 74 74 0 16 0,
  line "EnCoreColCal0" 75 75 0 16 0,
  line "DataEnCrc" 76 76 10 1 0,
  line "DataEnBcid" 76 76 9 1 0,
  line "DataEnL1id" 76 76 8 1 0,
  line "NumOfEventsInStream" 76 76 0 8 0,
  line "DataEnBinaryRo" 77 77 13 1 0,
  line "DataEnRaw" 77 77 12 1 0,
  line "DataMaxHits" 77 77 3 9 0,
  line "DataMaxTot" 77 77 0 3 0,
  line "EnHitsRemoval3" 78 78 0 6 0,
  line "EnHitsRemoval2" 79 79 0 16 0,
  line "EnHitsRemoval1" 80 80 0 16 0,
  line "EnHitsRemoval0" 81 81 0 16 0,
  line "EnIsoHitsRemoval3" 82 82 0 6 0,
  line "EnIsoHitsRemoval2" 83 83 0 16 0,
  line "EnIsoHitsRemoval1" 84 84 0 16 0,
  line "EnIsoHitsRemoval0" 85 85 0 16 0,
  line "EvenMask" 86 86 0 16 0,
  line "OddMask" 87 87 0 16 0,
  line "EfuseConfig" 88 88 0 16 0,
  line "EfuseWriteData1" 89 89 0 16 0,
  line "EfuseWriteData0" 90 90 0 16 0,
  line "DataMergeFixedMode" 91 91 12 1 0,
  line "DataMergeManMode" 91 91 8 4 0,
  line "DataMergeManChoice" 91 91 0 8 0,
  line "AuroraSendAlt" 92 92 13 1 0,
  line "AuroraEnPrbs" 92 92 12 1 0,
  line "AuroraActiveLanes" 92 92 8 4 1,
  line "AuroraCCWait" 92 92 2 6 25,
  line "AuroraCCSend" 92 92 0 2 3,
  line "AuroraCBWait1" 93 93 0 8 0,
  line "AuroraCBWait0" 94 94 4 12 4095,
  line "AuroraCBSend" 94 94 0 4 0,
  line "AuroraInitWait" 95 95 0 11 0,
  line "AuroraAltOutput1" 96 96 0 4 0,
  line "AuroraAltOutput0" 97 97 0 16 0,
  line "GpValReg" 98 98 9 4 5,
  line "GpCmosEn" 98 98 8 1 1,
  line "GpCmosDs" 98 98 7 1 0,
  line "GpLvdsEn" 98 98 3 4 0xF,
  line "GpLvdsBias" 98 98 0 3 7,
  line "GpCmosRoute" 99 99 0 6 34,
  line "GpLvdsPad3" 100 100 6 6 35,
  line "GpLvdsPad2" 100 100 0 6 33,
  line "GpLvdsPad1" 101 101 6 6 1,
  line "GpLvdsPad0" 101 101 0 6 0,
  line "CdrCp" 102 102 0 10 40,
  line "CdrCpFd" 103 103 0 10 400,
  line "CdrCpBuff" 104 104 0 10 200,
  line "CdrVco" 105 105 0 10 1023,
  line "CdrVcoBuff" 106 106 0 10 500,
  line "SerSelOut3" 107 107 6 2 1,
  line "SerSelOut2" 107 107 4 2 1,
  line "SerSelOut1" 107 107 2 2 1,
  line "SerSelOut0" 107 107 0 2 1,
  line "SerInvTap" 108 108 6 2 1,
  line "SerEnTap" 108 108 4 2 1,
  line "SerEnLane" 108 108 0 4 15,
  line "CmlBias2" 109 109 0 10 0,
  line "CmlBias1" 110 110 0 10 400,
  line "CmlBias0" 111 111 0 10 800,
  line "MonitorEnable" 112 112 12 1 0,
  line "MonitorI" 112 112 6 6 63,
  line "MonitorV" 112 112 0 6 63,
  line "ErrWngMask" 113 113 0 8 0,
  line "MonSensSldoDigEn" 114 114 11 1 0,
  line "MonSensSldoDigDem" 114 114 7 4 0,
  line "MonSensSldoDigSelBias" 114 114 6 1 0,
  line "MonSensSldoAnaEn" 114 114 5 1 0,
  line "MonSensSldoAnaDem" 114 114 1 4 0,
  line "MonSensSldoAnaSelBias" 114 114 0 1 0,
  line "MonSensAcbEn" 115 115 5 1 0,
  line "MonSensAcbDem" 115 115 1 4 0,
  line "MonSensAcbSelBias" 115 115 0 1 0,
  line "VrefRsensTop" 116 116 8 1 0,
  line "VrefRsensBot" 116 116 7 1 0,
  line "VrefIn" 116 116 6 1 1,
  line "MonAdcTrim" 116 116 0 6 0,
  line "NtcDac" 117 117 0 10 100,
  line "HitOrMask3" 118 118 0 6 0,
  line "HitOrMask2" 119 119 0 16 0,
  line "HitOrMask1" 120 120 0 16 0,
  line "HitOrMask0" 121 121 0 16 0,
  line "AutoRead0" 122 122 0 9 134,
  line "AutoRead1" 123 123 0 9 135,
  line "AutoRead2" 124 124 0 9 137,
  line "AutoRead3" 125 125 0 9 138,
  line "AutoRead4" 126 126 0 9 140,
  line "AutoRead5" 127 127 0 9 151,
  line "AutoRead6" 128 128 0 9 152,
  line "AutoRead7" 129 129 0 9 156,
  line "RingOscBClear" 130 130 14 1 0,
  line "RingOscBEnBl" 130 130 13 1 0,
  line "RingOscBEnBr" 130 130 12 1 0,
  line "RingOscBEnCapA" 130 130 11 1 0,
  line "RingOscBEnFf" 130 130 10 1 0,
  line "RingOscBEnLvt" 130 130 9 1 0,
  line "RingOscAClear" 130 130 8 1 0,
  line "RingOscAEn" 130 130 0 8 0,
  line "RingOscARoute" 131 131 6 3 0,
  line "RingOscBRoute" 131 131 0 6 0,
  line "RingOscAOut" 132 132 0 16 0,
  line "RingOscBOut" 133 133 0 16 0,
  line "BcidCnt" 134 134 0 16 0,
  line "TrigCnt" 135 135 0 16 0,
  line "ReadTrigCnt" 136 136 0 16 0,
  line "LockLossCnt" 137 137 0 16 0,
  line "BitFlipWngCnt" 138 138 0 16 0,
  line "BitFlipErrCnt" 139 139 0 16 0,
  line "CmdErrCnt" 140 140 0 16 0,
  line "RdWrFifoErrCnt" 141 141 0 16 0,
  line "AiRegionRow" 142 142 0 9 0,
  line "HitOrCnt3" 143 143 0 16 0,
  line "HitOrCnt2" 144 144 0 16 0,
  line "HitOrCnt1" 145 145 0 16 0,
  line "HitOrCnt0" 146 146 0 16 0,
  line "GatedHitOrCnt1" 147 147 0 16 0,
  line "GatedHitOrCnt0" 148 148 0 16 0,
  line "PixelSeuCntCnt" 149 149 0 16 0,
  line "GlobalConfigSeuCnt" 150 150 0 16 0,
  line "SkippedTrigCnt" 151 151 0 16 0,
  line "DataDecodingValues" 152 152 0 16 0,
  line "EfuseReadData1" 153 153 0 16 0,
  line "EfuseReadData0" 154 154 0 16 0,
  line "MonitoringDataAdc" 155 155 0 12 0,
  line "ChipIdSense" 156 156 4 4 0,
  line "IrefTrimSense" 156 156 0 4 0]

/-- The difference changes the high level; the threshold stands for three registers. -/
def virtRegMap : NameMap (Reg numRegs) := NameMap.ofList [
  ("InjVcalDiff", .diff InjVcalMed InjVcalHigh true),
  ("DiffTh1", .multi [DiffTh1M, DiffTh1L, DiffTh1R])]

def globalCfg : GlobalCfg numRegs := ⟨"ITKPIXV2", regs, virtRegMap⟩

end Itkpixv2GlobalCfg

namespace Rd53bGlobalCfg

abbrev numRegs : Nat := 138

def DiffTh1L : RegDefault numRegs :=
  ⟨⟨17, by decide⟩, ⟨17, by decide⟩, 0, 10, by decide⟩

def DiffTh1R : RegDefault numRegs :=
  ⟨⟨18, by decide⟩, ⟨18, by decide⟩, 0, 10, by decide⟩

def DiffTh1M : RegDefault numRegs :=
  ⟨⟨19, by decide⟩, ⟨19, by decide⟩, 0, 10, by decide⟩

def InjVcalHigh : RegDefault numRegs :=
  ⟨⟨55, by decide⟩, ⟨55, by decide⟩, 0, 12, by decide⟩

def InjVcalMed : RegDefault numRegs :=
  ⟨⟨56, by decide⟩, ⟨56, by decide⟩, 0, 12, by decide⟩

def EnCoreCol : Nat → RegDefault numRegs
  | 0 => ⟨42, 42, 0, 16, by decide⟩
  | 1 => ⟨41, 41, 0, 16, by decide⟩
  | 2 => ⟨40, 40, 0, 16, by decide⟩
  | _ => ⟨39, 39, 0, 6, by decide⟩

/-- One line of `init`, with address and word written out as there. -/
def line (name : String) (addr word bOffset bits : Nat) (value : UInt16)
    (known : addr < numRegs := by decide) (inside : word < numRegs := by decide)
    (fits : bOffset + bits ≤ 16 := by decide) : RegInit numRegs :=
  ⟨name, ⟨⟨addr, known⟩, ⟨word, inside⟩, bOffset, bits, fits⟩, value⟩

def regs : List (RegInit numRegs) := [
  line "PixPortal" 0 0 0 16 0,
  line "PixRegionCol" 1 1 0 16 0,
  line "PixRegionRow" 2 2 0 16 0,
  line "PixBroadcast" 3 3 2 1 0,
  line "PixConfMode" 3 3 1 1 1,
  line "PixAutoRow" 3 3 0 1 0,
  line "PixDefaultConfig" 4 4 0 16 0x9CE2,
  line "PixDefaultConfigB" 5 5 0 16 0x631D,
  line "GcrDefaultConfig" 6 6 0 16 0xAC75,
  line "GcrDefaultConfigB" 7 7 0 16 0x538A,
  line "DiffPreampL" 8 8 0 10 800,
  line "DiffPreampR" 9 9 0 10 800,
  line "DiffPreampTL" 10 10 0 10 800,
  line "DiffPreampTR" 11 11 0 10 800,
  line "DiffPreampT" 12 12 0 10 800,
  line "DiffPreampM" 13 13 0 10 800,
  line "DiffPreComp" 14 14 0 10 350,
  line "DiffComp" 15 15 0 10 500,
  line "DiffVff" 16 16 0 10 160,
  ⟨"DiffTh1L", DiffTh1L, 350⟩,
  ⟨"DiffTh1R", DiffTh1R, 350⟩,
  ⟨"DiffTh1M", DiffTh1M, 350⟩,
  line "DiffTh2" 20 20 0 10 50,
  line "DiffLcc" 21 21 0 10 100,
  line "DiffLccEn" 37 37 1 1 0,
  line "DiffFbCapEn" 37 37 0 1 0,
  line "LinPreampL" 22 22 0 10 300,
  line "LinPreampR" 23 23 0 10 300,
  line "LinPreampTL" 24 24 0 10 300,
  line "LinPreampTR" 25 25 0 10 300,
  line "LinPreampT" 26 26 0 10 300,
  line "LinPreampM" 27 27 0 10 300,
  line "LinFc" 28 28 0 10 20,
  line "LinKrumCurr" 29 29 0 10 50,
  line "LinRefKrum" 30 30 0 10 300,
  line "LinComp" 31 31 0 10 110,
  line "LinCompTa" 32 32 0 10 110,
  line "LinGdacL" 33 33 0 10 408,
  line "LinGdacR" 34 34 0 10 408,
  line "LinGdacM" 35 35 0 10 408,
  line "LinLdac" 36 36 0 10 100,
  line "SldoEnUndershuntA" 38 38 9 1 0,
  line "SldoEnUndershuntD" 38 38 8 1 0,
  line "SldoTrimA" 38 38 4 4 8,
  line "SldoTrimD" 38 38 0 4 8,
  line "EnCoreCol3" 39 39 0 6 63,
  line "EnCoreCol2" 40 40 0 16 65535,
  line "EnCoreCol1" 41 41 0 16 65535,
  line "EnCoreCol0" 42 42 0 16 65535,
  line "RstCoreCol3" 43 43 0 6 0,
  line "RstCoreCol2" 44 44 0 16 0,
  line "RstCoreCol1" 45 45 0 16 0,
  line "RstCoreCol0" 46 46 0 16 0,
  line "TwoLevelTrig" 47 47 9 1 0,
  line "Latency" 47 47 0 9 500,
  line "SelfTrigEn" 48 48 5 1 0,
  line "SelfTrigDigThrEn" 48 48 4 1 0,
  line "SelfTrigDigThr" 48 48 0 4 1,
  line "SelfTrigDelay" 49 49 5 10 512,
  line "SelfTrigMulti" 49 49 0 5 4,
  line "SelfTrigPattern" 50 50 0 16 65534,
  line "DataReadDelay" 51 51 12 2 0,
  line "ReadTrigLatency" 51 51 0 12 1000,
  line "TruncTimeoutConf" 52 52 0 12 0,
  line "InjDigEn" 53 53 7 1 0,
  line "InjAnaMode" 53 53 6 1 0,
  line "InjFineDelay" 53 53 0 6 5,
  line "FineDelayClk" 54 54 6 6 0,
  line "FineDelayData" 54 54 0 6 0,
  ⟨"InjVcalHigh", InjVcalHigh, 200⟩,
  ⟨"InjVcalMed", InjVcalMed, 200⟩,
  line "CapMeasEnPar" 57 57 2 1 0,
  line "CapMeasEn" 57 57 1 1 0,
  line "InjVcalRange" 57 57 0 1 1,
  line "CdrOverwriteLimit" 58 58 4 1 0,
  line "CdrPhaseDetSel" 58 58 3 1 0,
  line "CdrClkSel" 58 58 0 3 0,
  line "ChSyncLockThr" 59 59 0 5 31,
  line "GlobalPulseConf" 60 60 0 16 0,
  line "GlobalPulseWidth" 61 61 0 8 0,
  line "ServiceBlockEn" 62 62 8 1 1,
  line "ServiceBlockPeriod" 62 62 0 8 50,
  line "TotEnPtot" 63 63 12 1 0,
  line "TotEnPtoa" 63 63 11 1 0,
  line "TotEn80" 63 63 10 1 0,
  line "TotEn6b4b" 63 63 9 1 0,
  line "TotPtotLatency" 63 63 0 9 500,
  line "PtotCoreColEn3" 64 64 0 6 0,
  line "PtotCoreColEn2" 65 65 0 16 0,
  line "PtotCoreColEn1" 66 66 0 16 0,
  line "PtotCoreColEn0" 67 67 0 16 0,
  line "DataMergeInPol" 68 68 8 4 0,
  line "EnChipId" 68 68 7 1 0,
  line "DataMergeEnClkGate" 68 68 6 1 0,
  line "DataMergeSelClk" 68 68 5 1 0,
  line "DataMergeEn" 68 68 1 4 0,
  line "DataMergeEnBond" 68 68 0 1 0,
  line "DataMergeInMux3" 69 69 14 2 3,
  line "DataMergeInMux2" 69 69 12 2 2,
  line "DataMergeInMux1" 69 69 10 2 1,
  line "DataMergeInMux0" 69 69 8 2 0,
  line "DataMergeOutMux3" 69 69 6 2 0,
  line "DataMergeOutMux2" 69 69 4 2 1,
  line "DataMergeOutMux1" 69 69 2 2 2,
  line "DataMergeOutMux0" 69 69 0 2 3,
  line "EnCoreColCal3" 70 70 0 6 0,
  line "EnCoreColCal2" 71 71 0 16 0,
  line "EnCoreColCal1" 72 72 0 16 0,
  line "EnCoreColCal0" 73 73 0 16 0,
  line "DataEnBcid" 74 74 10 1 0,
  line "DataEnL1id" 74 74 9 1 0,
  line "DataEnEos" 74 74 8 1 1,
  line "NumOfEventsInStream" 74 74 0 8 0,
  line "DataEnBinaryRo" 75 75 10 1 0,
  line "DataEnRaw" 75 75 9 1 0,
  line "DataEnHitRemoval" 75 75 8 1 0,
  line "DataMaxHits" 75 75 4 4 0,
  line "DataEnIsoHitRemoval" 75 75 3 1 0,
  line "DataMaxTot" 75 75 0 3 0,
  line "EvenMask" 76 76 0 16 0,
  line "OddMask" 77 77 0 16 0,
  line "EfuseConfig" 78 78 0 16 0,
  line "EfuseWriteData1" 79 79 0 16 0,
  line "EfuseWriteData0" 80 80 0 16 0,
  line "AuroraEnPrbs" 81 81 12 1 0,
  line "AuroraActiveLanes" 81 81 8 4 1,
  line "AuroraCCWait" 81 81 2 6 25,
  line "AuroraCCSend" 81 81 0 2 3,
  line "AuroraCBWait1" 82 82 0 8 0,
  line "AuroraCBWait0" 83 83 4 12 4095,
  line "AuroraCBSend" 83 83 0 4 0,
  line "AuroraInitWait" 84 84 0 11 0,
  line "GpValReg" 85 85 9 4 5,
  line "GpCmosEn" 85 85 8 1 1,
  line "GpCmosDs" 85 85 7 1 0,
  line "GpLvdsEn" 85 85 3 4 0xF,
  line "GpLvdsBias" 85 85 0 3 7,
  line "GpCmosRoute" 86 86 0 7 34,
  line "GpLvdsPad3" 87 87 6 6 35,
  line "GpLvdsPad2" 87 87 0 6 33,
  line "GpLvdsPad1" 88 88 6 6 1,
  line "GpLvdsPad0" 88 88 0 6 0,
  line "CdrCp" 89 89 0 10 40,
  line "CdrCpFd" 90 90 0 10 400,
  line "CdrCpBuff" 91 91 0 10 200,
  line "CdrVco" 92 92 0 10 1023,
  line "CdrVcoBuff" 93 93 0 10 500,
  line "SerSelOut3" 94 94 6 2 1,
  line "SerSelOut2" 94 94 4 2 1,
  line "SerSelOut1" 94 94 2 2 1,
  line "SerSelOut0" 94 94 0 2 1,
  line "SerInvTap" 95 95 6 2 1,
  line "SerEnTap" 95 95 4 2 1,
  line "SerEnLane" 95 95 0 4 15,
  line "CmlBias2" 96 96 0 10 0,
  line "CmlBias1" 97 97 0 10 400,
  line "CmlBias0" 98 98 0 10 800,
  line "MonitorEnable" 99 99 12 1 1,
  line "MonitorI" 99 99 6 6 63,
  line "MonitorV" 99 99 0 6 32,
  line "ErrWngMask" 100 100 0 8 0,
  line "MonSensSldoDigEn" 101 101 11 1 0,
  line "MonSensSldoDigDem" 101 101 7 4 0,
  line "MonSensSldoDigSelBias" 101 101 6 1 0,
  line "MonSensSldoAnaEn" 101 101 5 1 0,
  line "MonSensSldoAnaDem" 101 101 1 4 0,
  line "MonSensSldoAnaSelBias" 101 101 0 1 0,
  line "MonSensAcbEn" 102 102 5 1 0,
  line "MonSensAcbDem" 102 102 1 4 0,
  line "MonSensAcbSelBias" 102 102 0 1 0,
  line "VrefRsensBot" 103 103 8 1 0,
  line "VrefRsensTop" 103 103 7 1 0,
  line "VrefIn" 103 103 6 1 1,
  line "MonAdcTrim" 103 103 0 6 0,
  line "NtcDac" 104 104 0 10 100,
  line "HitOrMask3" 105 105 0 6 0,
  line "HitOrMask2" 106 106 0 16 0,
  line "HitOrMask1" 107 107 0 16 0,
  line "HitOrMask0" 108 108 0 16 0,
  line "AutoRead0" 109 109 0 9 137,
  line "AutoRead1" 110 110 0 9 133,
  line "AutoRead2" 111 111 0 9 121,
  line "AutoRead3" 112 112 0 9 122,
  line "AutoRead4" 113 113 0 9 124,
  line "AutoRead5" 114 114 0 9 127,
  line "AutoRead6" 115 115 0 9 126,
  line "AutoRead7" 116 116 0 9 125,
  line "RingOscBClear" 117 117 14 1 0,
  line "RingOscBEnBl" 117 117 13 1 0,
  line "RingOscBEnBr" 117 117 12 1 0,
  line "RingOscBEnCapA" 117 117 11 1 0,
  line "RingOscBEnFf" 117 117 10 1 0,
  line "RingOscBEnLvt" 117 117 9 1 0,
  line "RingOscAClear" 117 117 8 1 0,
  line "RingOscAEn" 117 117 0 8 0,
  line "RingOscARoute" 118 118 6 3 0,
  line "RingOscBRoute" 118 118 0 6 0,
  line "RingOscAOut" 119 119 0 16 0,
  line "RingOscBOut" 120 120 0 16 0,
  line "BcidCnt" 121 121 0 16 0,
  line "TrigCnt" 122 122 0 16 0,
  line "ReadTrigCnt" 123 123 0 16 0,
  line "LockLossCnt" 124 124 0 16 0,
  line "BitFlipWngCnt" 125 125 0 16 0,
  line "BitFlipErrCnt" 126 126 0 16 0,
  line "CmdErrCnt" 127 127 0 16 0,
  line "RdWrFifoErrCnt" 128 128 0 16 0,
  line "AiRegionRow" 129 129 0 9 0,
  line "HitOrCnt3" 130 130 0 16 0,
  line "HitOrCnt2" 131 131 0 16 0,
  line "HitOrCnt1" 132 132 0 16 0,
  line "HitOrCnt0" 133 133 0 16 0,
  line "SkippedTrigCnt" 134 134 0 16 0,
  line "EfuseReadData1" 135 135 0 16 0,
  line "EfuseReadData0" 136 136 0 16 0,
  line "MonitoringDataAdc" 137 137 0 12 0]

/-- The difference changes the high level; the threshold stands for three registers. -/
def virtRegMap : NameMap (Reg numRegs) := NameMap.ofList [
  ("InjVcalDiff", .diff InjVcalMed InjVcalHigh true),
  ("DiffTh1", .multi [DiffTh1M, DiffTh1L, DiffTh1R])]

def globalCfg : GlobalCfg numRegs := ⟨"RD53B", regs, virtRegMap⟩

end Rd53bGlobalCfg

namespace Rd53aGlobalCfg

abbrev numRegs : Nat := 138

def PixPortal : RegDefault numRegs := ⟨0, 0, 0, 16, by decide⟩

def PixRegionCol : RegDefault numRegs := ⟨1, 1, 0, 8, by decide⟩

def PixRegionRow : RegDefault numRegs := ⟨2, 2, 0, 9, by decide⟩

def PixBroadcastEn : RegDefault numRegs := ⟨3, 3, 5, 1, by decide⟩

def PixAutoCol : RegDefault numRegs := ⟨3, 3, 4, 1, by decide⟩

def PixAutoRow : RegDefault numRegs := ⟨3, 3, 3, 1, by decide⟩

def LatencyConfig : RegDefault numRegs := ⟨37, 37, 0, 9, by decide⟩

/-! Registers of the calibration injection. -/

def CalColprSync1 : RegDefault numRegs := ⟨46, 46, 0, 16, by decide⟩
def CalColprSync2 : RegDefault numRegs := ⟨47, 47, 0, 16, by decide⟩
def CalColprSync3 : RegDefault numRegs := ⟨48, 48, 0, 16, by decide⟩
def CalColprSync4 : RegDefault numRegs := ⟨49, 49, 0, 16, by decide⟩
def CalColprLin1 : RegDefault numRegs := ⟨50, 50, 0, 16, by decide⟩
def CalColprLin2 : RegDefault numRegs := ⟨51, 51, 0, 16, by decide⟩
def CalColprLin3 : RegDefault numRegs := ⟨52, 52, 0, 16, by decide⟩
def CalColprLin4 : RegDefault numRegs := ⟨53, 53, 0, 16, by decide⟩
def CalColprLin5 : RegDefault numRegs := ⟨54, 54, 0, 4, by decide⟩
def CalColprDiff1 : RegDefault numRegs := ⟨55, 55, 0, 16, by decide⟩
def CalColprDiff2 : RegDefault numRegs := ⟨56, 56, 0, 16, by decide⟩
def CalColprDiff3 : RegDefault numRegs := ⟨57, 57, 0, 16, by decide⟩
def CalColprDiff4 : RegDefault numRegs := ⟨58, 58, 0, 16, by decide⟩
def CalColprDiff5 : RegDefault numRegs := ⟨59, 59, 0, 4, by decide⟩

def InjDelay : RegDefault numRegs := ⟨39, 39, 0, 4, by decide⟩

end Rd53aGlobalCfg

end Yarr.Rd53
