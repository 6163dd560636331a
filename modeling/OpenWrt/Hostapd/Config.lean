/-
# Configurations of a radio and its access points

The configuration of a radio as it is loaded from the file the scripts write: the lines of
the radio, with the channel and the generated comments taken out of them, and the BSSs in
the order of the file. The radio section is what the configuration text of an interface
begins with.
-/

import Mathlib.Data.Int.Notation
import Mathlib.Data.Nat.Notation

namespace OpenWrt.Hostapd

/-- A line of a configuration file, without its line end. -/
abbrev Line := List Char

/-- `config.radio`: the lines, and the values that are kept apart from them. -/
structure Radio where
  data : List Line
  channel : Option Line
  /-- The `#frequency` comment. -/
  frequency : Option ℤ
  /-- The `#channel_follow` comment. -/
  channelFollow : Option Bool
deriving DecidableEq

/-- An entry of `config.bss`. -/
structure Bss where
  ifname : String
  data : List Line
  /-- The digest of each file that a line names. -/
  hash : List (Line × String)
  bssid : Option String
  defaultMacaddr : Bool
  randomMacaddr : Bool
  nasid : Option Line
  /-- The BSS is a link of a multi-link device. -/
  mldAp : Bool
  /-- The address of that device. -/
  mldBssid : Option String
  forceReload : Bool
deriving DecidableEq

/-- A configuration of a radio. -/
structure Config where
  phy : String
  radioIdx : Option ℕ
  radio : Radio
  bss : List Bss
  mbssid : Option ℤ
  numGlobalMacaddr : Option ℤ
  macaddrBase : Option String
deriving DecidableEq

/-- The part of a line before the first `=`. -/
def lineKey (line : Line) : Line :=
  line.takeWhile (· ≠ '=')

/-- The line that `iface_gen_config` writes for the channel. -/
def channelLine (channel : Option Line) : Line :=
  "channel=".toList ++ channel.getD "null".toList

/-- The lines of the radio section, as `iface_gen_config` writes them. -/
def radioSection (radio : Radio) : List Line :=
  radio.data ++ [channelLine radio.channel]

end OpenWrt.Hostapd
