import Yarr.Core.BitField

/-!
# Accesses to an lpGBT

The items of a table are whole registers and fields of them. An access sends a
frame and waits for a reply; the loop around it is to repeat what has failed.
-/

namespace Yarr.Felix

structure LpgbtItem where
  addr : Nat
  name : String
  bitindex : Nat
  nbits : Nat
deriving DecidableEq, Repr

namespace OptoUtils

/-- The last entry of a table. -/
def terminator : LpgbtItem := ⟨0, "", 0, 0⟩

/-- The entries before the terminator. The first one of an address is the whole register. -/
structure ItemTable where
  items : List LpgbtItem
  fits : ∀ item ∈ items, item.bitindex + item.nbits ≤ 8
  addressed : ∀ item ∈ items, item.addr < 2 ^ 16
  names : (items.map LpgbtItem.name).Nodup
  whole : ∀ item ∈ items, (items.find? fun first => first.addr == item.addr).any
    fun first => first.bitindex == 0 && first.nbits == 8

inductive Version where
  | v0
  | v1
deriving DecidableEq, Repr

structure ItemTables where
  LPGBTv0_ITEM : ItemTable
  LPGBTv1_ITEM : ItemTable

variable (tables : ItemTables) (version : Version)

def reg_list : ItemTable :=
  match version with
  | .v0 => tables.LPGBTv0_ITEM
  | .v1 => tables.LPGBTv1_ITEM

def getLpGBTRegisterByName (regname : String) : LpgbtItem :=
  ((reg_list tables version).items.find? fun item => item.name == regname).getD terminator

def getLpGBTRegisterByAddr (reg_addr : Nat) : LpgbtItem :=
  ((reg_list tables version).items.find? fun item => item.addr == reg_addr).getD terminator

def regField (item : LpgbtItem) : Bool := item.name.toList.contains '_'

/-- The bits of an item within its byte, `pow(2,bitindex) * (pow(2,nbits) - 1)`. -/
def itemBits (item : LpgbtItem) : UInt8 := UInt8.ofNat (2 ^ item.bitindex * (2 ^ item.nbits - 1))

/-- The bits of all fields at the address but the one given. -/
def getRegBitmask (reg : LpgbtItem) : UInt8 :=
  (reg_list tables version).items.foldl (fun bitmask item =>
    if item.addr = reg.addr ∧ item.name ≠ reg.name ∧ regField item then bitmask ||| itemBits item
    else bitmask) 0

def applyRegfieldReadMask (reg : LpgbtItem) (reg_data : UInt8) : UInt8 :=
  UInt8.ofNat (reg_data.toNat >>> reg.bitindex) &&& UInt8.ofNat (2 ^ reg.nbits - 1)

def applyRegfieldWriteMask (reg : LpgbtItem) (reg_data current_data : UInt8) : UInt8 :=
  let cleared_mask := current_data &&& getRegBitmask tables version reg
  UInt8.ofNat (cleared_mask.toNat ||| reg_data.toNat <<< reg.bitindex)

def prepareICDataFrame (write : Bool) (reg_addr : UInt16) (data : UInt8) (dev_addr : UInt16) :
    List UInt8 :=
  let reserved : List UInt8 := if version = .v0 then [0] else []
  let header : List UInt8 :=
    [((dev_addr <<< 1) + if write then 0 else 1).toUInt8, 1, 1, 0, reg_addr.toUInt8,
      (reg_addr >>> 8).toUInt8]
  let frame := reserved ++ header ++ if write then [data] else []
  let parity := (frame.drop (if version = .v0 then 2 else 0)).foldl (· ^^^ ·) 0
  frame ++ [parity]

def first_ic_payload_byte : Nat :=
  match version with
  | .v0 => 7
  | .v1 => 6

end OptoUtils

open OptoUtils

structure OptoDevice where
  version : Version
  i2c_addr : UInt16
  dev_addr : UInt16
  dev_primary_addr : UInt16
  dev_type : String

/-- What an attempt comes to: sending throws, or a reply of 64 bits arrives. -/
inductive Outcome where
  | runtime_error
  | reply (first second : UInt32)

/-- What happens to a frame that is sent. -/
abbrev Link (σ : Type) : Type := List UInt8 → σ → Outcome × σ

namespace FelixController

/-- The variables of the loop. -/
structure Access (σ : Type) where
  link : σ
  num_tries : Nat
  success : Bool
  data : UInt8

namespace Access

variable {σ : Type}

def running (s : Access σ) : Bool := !s.success && decide (s.num_tries < 4)

end Access

variable (tables : ItemTables) {σ : Type} (sendIC : Link σ)

/-- The byte of the reply that holds the register, cut to the first item of its address. -/
def replyValue (lpgbt : OptoDevice) (reg : LpgbtItem) (at_block : UInt32) : UInt8 :=
  let index_32 := first_ic_payload_byte lpgbt.version % 4
  let reg_primary := getLpGBTRegisterByAddr tables lpgbt.version reg.addr
  let tmpvalue := UInt8.ofNat (((0xFF <<< (8 * index_32)) &&& at_block.toNat) >>> (8 * index_32))
  let bitmask := UInt8.ofNat ((0xFF >>> (8 - reg_primary.nbits)) <<< reg_primary.bitindex)
  tmpvalue &&& bitmask

/-- The body of the loop. A reply ends it, whatever it holds. -/
def attempt (lpgbt : OptoDevice) (reg : LpgbtItem) (write : Bool) (netio_frame : List UInt8)
    (s : Access σ) : Access σ :=
  match sendIC netio_frame s.link with
  | (.runtime_error, link) => { s with link := link }
  | (.reply _ at_block, link) =>
      let value := replyValue tables lpgbt reg at_block
      let replied := { s with link := link, success := true }
      if write then
        if s.data ≠ value then { replied with num_tries := s.num_tries + 1 } else replied
      else { replied with data := value }

/-- The loop, with a bound on the attempts made. -/
def accessLoop (body : Access σ → Access σ) : Nat → Access σ → Option (Access σ)
  | 0, s => if s.running then none else some s
  | fuel + 1, s => if s.running then accessLoop body fuel (body s) else some s

def communicateLpGBT (fuel : Nat) (lpgbt : OptoDevice) (reg : LpgbtItem) (data : UInt8)
    (write : Bool) (link : σ) : Option (Access σ) :=
  let netio_frame := prepareICDataFrame lpgbt.version write (UInt16.ofNat reg.addr) data
    lpgbt.dev_primary_addr
  accessLoop (attempt tables sendIC lpgbt reg write netio_frame) fuel ⟨link, 0, false, data⟩

/-! ## Registers -/

namespace I2C

def m_i2c_write_cr : UInt8 := 0x0

def m_i2c_w_multi_4byte0 : UInt8 := 0x8

def m_i2c_write_multi : UInt8 := 0xC

def m_i2c_read_multi : UInt8 := 0xD

def m_freq : UInt8 := 2

def m_scldrive : UInt8 := 0

end I2C

open I2C

/-- The bytes that go with a register over I2C, for a write and for a read. -/
def nByte (dev_type : String) (write : Bool) : UInt8 :=
  if dev_type = "lpgbt" then if write then 3 else 2
  else if dev_type = "gbcr" then if write then 2 else 1
  else 0

/-- The registers of the I2C master and their values for an access to a device behind it. -/
def i2cWrites (lpgbt : OptoDevice) (reg : LpgbtItem) (reg_data : UInt8) (write : Bool) :
    List (String × UInt8) :=
  let setup (NBYTE : UInt8) : List (String × UInt8) :=
    [("DATA0", m_scldrive <<< 7 ||| NBYTE <<< 2 ||| m_freq), ("CMD", m_i2c_write_cr)]
  let address : List (String × UInt8) :=
    if lpgbt.dev_type = "lpgbt" then
      [("DATA0", UInt8.ofNat (reg.addr &&& 0x0FF)),
        ("DATA1", UInt8.ofNat ((reg.addr &&& 0xF00) >>> 8))] ++
        if write then [("DATA2", reg_data)] else []
    else if lpgbt.dev_type = "gbcr" then
      [("DATA0", UInt8.ofNat reg.addr)] ++ if write then [("DATA1", reg_data)] else []
    else []
  setup (nByte lpgbt.dev_type write) ++ address ++
    [("CMD", m_i2c_w_multi_4byte0), ("ADDRESS", lpgbt.dev_addr.toUInt8),
      ("CMD", m_i2c_write_multi)] ++
    setup 1 ++ [("ADDRESS", lpgbt.dev_addr.toUInt8), ("CMD", m_i2c_read_multi)]

/-- The primary lpGBT is accessed directly, all other devices through its I2C master. -/
def readWriteOptoReg (fuel : Nat) (lpgbt : OptoDevice) (reg : LpgbtItem) (reg_data : UInt8)
    (write : Bool) (link : σ) : Option (UInt8 × σ) :=
  if lpgbt.dev_addr = lpgbt.dev_primary_addr ∧ lpgbt.dev_type = "lpgbt" then
    (communicateLpGBT tables sendIC fuel lpgbt reg reg_data write link).map fun s =>
      (s.data, s.link)
  else
    let i2cRegister (name : String) :=
      getLpGBTRegisterByName tables lpgbt.version ("I2CM" ++ toString lpgbt.i2c_addr ++ name)
    let sent := (i2cWrites lpgbt reg reg_data write).foldlM (fun link entry =>
      (communicateLpGBT tables sendIC fuel lpgbt (i2cRegister entry.1) entry.2 true link).map
        Access.link) link
    sent.bind fun link =>
      let status := communicateLpGBT tables sendIC fuel lpgbt (i2cRegister "STATUS") 0 false link
      status.bind fun status =>
        (communicateLpGBT tables sendIC fuel lpgbt (i2cRegister "READ15") reg_data false
          status.link).map fun s => (s.data, s.link)

def readLpGBTRegister (fuel : Nat) (lpgbt : OptoDevice) (reg_name : String) (link : σ) :
    Option (UInt8 × σ) :=
  let reg := getLpGBTRegisterByName tables lpgbt.version reg_name
  (readWriteOptoReg tables sendIC fuel lpgbt reg 0 false link).map fun result =>
    (if regField reg then applyRegfieldReadMask reg result.1 else result.1, result.2)

/-- A field is read first, for the bits of the other fields. -/
def writeLpGBTRegister (fuel : Nat) (lpgbt : OptoDevice) (reg_name : String) (reg_data : UInt8)
    (link : σ) : Option σ :=
  let reg := getLpGBTRegisterByName tables lpgbt.version reg_name
  let prepared : Option (UInt8 × σ) :=
    if regField reg then
      (readWriteOptoReg tables sendIC fuel lpgbt reg 0 false link).map fun current =>
        (applyRegfieldWriteMask tables lpgbt.version reg reg_data current.1, current.2)
    else some (reg_data, link)
  prepared.bind fun write =>
    (readWriteOptoReg tables sendIC fuel lpgbt reg write.1 true write.2).map Prod.snd

end FelixController

end Yarr.Felix
