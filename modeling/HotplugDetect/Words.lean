import HotplugDetect.Connector
import HotplugDetect.Json.Codec
import HotplugDetect.PinTable

/-! # The words used in files

Pins, ports, pin states and poll modes are written by name.
-/

namespace HotplugDetect

def Pin.codec : Codec Pin := .choice Pin.all Pin.key

def Port.codec : Codec Port := .choice Port.all Port.key

def PinState.codec : Codec PinState := .choice PinState.all PinState.key

def PollMode.codec : Codec PollMode := .choice PollMode.all PollMode.key

namespace PinStatus

def record : Record PinStatus where
  name := "struct PinStatus"
  initial := ⟨.tv, .enabled, 0, false⟩
  fields :=
    [.of "pin" true Pin.codec pin ({ · with pin := · }),
     .of "state" true PinState.codec state ({ · with state := · }),
     .of "count" true .word32 count ({ · with count := · }),
     .of "mitigated" true .flag mitigated ({ · with mitigated := · })]

def codec : Codec PinStatus := record.codec

end PinStatus

end HotplugDetect
