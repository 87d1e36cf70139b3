namespace DanubeBsp

/-! The error codes of the drivers, as they return them. -/

def eIo : Int := -5

def eAgain : Int := -11

def eNoMem : Int := -12

def eFault : Int := -14

def eBusy : Int := -16

def eExist : Int := -17

def eInval : Int := -22

theorem eInval_neg : eInval < 0 := by decide

def eNoMsg : Int := -35

def eNoData : Int := -61

def eNetReset : Int := -129

def eNoBufs : Int := -132

def eRestartSys : Int := -512

end DanubeBsp
