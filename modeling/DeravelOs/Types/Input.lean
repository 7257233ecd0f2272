import DeravelOs.Types.Basic

/-!
# Input events

`types/src/input.rs`, as far as the applications use it, and the structs of `interfaces.drvli` for input
devices.
-/

namespace Deravel

/-- `InputEvent` -/
structure InputEvent where
  type : UInt16
  code : UInt16
  value : UInt32
  deriving DecidableEq, Repr

/-- `InputAbsinfo`, without the fields that nobody reads. -/
structure InputAbsinfo where
  min : UInt32
  max : UInt32

/-- `EV_SYN` -/
def evSyn : UInt16 := 0

/-- `EV_KEY` -/
def evKey : UInt16 := 1

/-- `EV_REL` -/
def evRel : UInt16 := 2

/-- `EV_ABS` -/
def evAbs : UInt16 := 3

/-- `KEY_ESC` -/
def keyEsc : UInt16 := 1

/-- `KEY_Q` -/
def keyQ : UInt16 := 16

/-- `KEY_T` -/
def keyT : UInt16 := 20

/-- `KEY_LEFTALT` -/
def keyLeftalt : UInt16 := 56

/-- `BTN_LEFT` -/
def btnLeft : UInt16 := 0x110

/-- `REL_X` -/
def relX : UInt16 := 0

/-- `REL_Y` -/
def relY : UInt16 := 1

/-- `ABS_X` -/
def absX : UInt16 := 0

/-- `ABS_Y` -/
def absY : UInt16 := 1

end Deravel
