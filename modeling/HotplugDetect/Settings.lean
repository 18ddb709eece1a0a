import HotplugDetect.Failure
import HotplugDetect.Json.Codec
import HotplugDetect.PinTable

/-! # Settings

What the display hardware can do, and how storms are detected and left behind. Every field has a
default, so a settings text may leave out any of them.
-/

namespace HotplugDetect

structure PlatformCaps where
  /-- Port F shares the pin of port E. -/
  alternateWiring : Bool := false
  /-- Interrupts keep arriving on masked pins. -/
  gmchDisplay : Bool := false
  hasHotplug : Bool := true
  multiStream : Bool := false
  deriving DecidableEq

/-- Short pulses are sideband traffic where several streams share a link. -/
def PlatformCaps.countsShortStorms (c : PlatformCaps) : Bool := !c.multiStream

def PlatformCaps.record : Record PlatformCaps where
  name := "struct PlatformCaps"
  initial := {}
  fields :=
    [.of "alternate_pin_port" false .flag alternateWiring ({ · with alternateWiring := · }),
     .of "gmch_display" false .flag gmchDisplay ({ · with gmchDisplay := · }),
     .of "has_hotplug" false .flag hasHotplug ({ · with hasHotplug := · }),
     .of "dp_mst" false .flag multiStream ({ · with multiStream := · })]

structure StormSettings where
  threshold : UInt32 := defaultThreshold
  /-- Whether short pulses count; none leaves it to the platform. -/
  shortStorms : Option Bool := none
  detectPeriod : UInt64 := 1000
  reenableDelay : UInt64 := 120000
  /-- Recovery also covers pins with a digital port. -/
  reenableDigital : Bool := false
  deriving DecidableEq

def StormSettings.record : Record StormSettings where
  name := "struct StormSettings"
  initial := {}
  fields :=
    [.of "threshold" false .word32 threshold ({ · with threshold := · }),
     .of "short_storm_enabled" false (.optional .flag) shortStorms
       ({ · with shortStorms := · }),
     .of "detect_period_ms" false .word64 detectPeriod ({ · with detectPeriod := · }),
     .of "reenable_delay_ms" false .word64 reenableDelay ({ · with reenableDelay := · }),
     .of "reenable_digital_pins" false .flag reenableDigital
       ({ · with reenableDigital := · })]

structure Settings where
  platform : PlatformCaps := {}
  storm : StormSettings := {}
  deriving DecidableEq

namespace Settings

def record : Record Settings where
  name := "struct HotplugSettings"
  initial := {}
  fields :=
    [.of "platform" false PlatformCaps.record.codec platform ({ · with platform := · }),
     .of "storm" false StormSettings.record.codec storm ({ · with storm := · })]

def codec : Codec Settings := record.codec

/-- A window or a delay of no length, or a recovery inside the window, would break the storm
detector. -/
def validate (s : Settings) : Except Failure Unit :=
  if s.storm.detectPeriod = 0 then
    .error (.invalidSetting "storm.detect_period_ms" "must be greater than zero")
  else if s.storm.reenableDelay = 0 then
    .error (.invalidSetting "storm.reenable_delay_ms" "must be greater than zero")
  else if s.storm.reenableDelay < s.storm.detectPeriod then
    .error (.invalidSetting "storm.reenable_delay_ms"
      "must not be shorter than storm.detect_period_ms")
  else .ok ()

def stormConfig (s : Settings) : StormConfig where
  threshold := s.storm.threshold
  shortStorms := s.storm.shortStorms.getD s.platform.countsShortStorms
  period := s.storm.detectPeriod.toNat

def parse (text : String) : Except Failure Settings :=
  (codec.decode text).mapError .json

end Settings

end HotplugDetect
