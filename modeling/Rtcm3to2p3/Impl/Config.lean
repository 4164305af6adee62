import Rtcm3to2p3.Impl.Ntrip
import Rtcm3to2p3.Impl.Service

/-!
# `service.py`: the configuration

`Config`, and what `Service.__init__` makes of it: the mounts of the caster and
the clients of the two upstreams.
-/

namespace Rtcm.Impl

structure Config (K : Type) [Field K] where
  upstreamHost : String := "ntrip.data.gnss.ga.gov.au"
  upstreamUser : String := "mithro"
  upstreamPassword : String := ""
  obsMount : String := "ADDE00AUS0"
  ephMount : String := "BCEP00BKG0"
  listenAddresses : List String := ["127.0.0.1"]
  rtcm3Mount : String := "ADDE_RTCM3"
  rtcm23Mount : String := "ADDE_RTCM23"
  /-- The RTCM 2.3 reference station id that is sent. -/
  stationId : Int := 1023
  stationLat : K := -34.94
  stationLon : K := 138.58
  /-- Corrections from an older ephemeris are dropped. -/
  maxIodAgeS : K := 7200.0
  /-- Corrections with a larger residual are dropped. -/
  maxResidualM : K := 100.0

namespace Config

variable {K : Type} [Field K] (config : Config K)

def rtcm3Info : MountInfo K where
  mount := config.rtcm3Mount
  fmt := "RTCM 3"
  fmtDetails := "1006,1077"
  lat := config.stationLat
  lon := config.stationLon

def rtcm23Info : MountInfo K where
  mount := config.rtcm23Mount
  fmt := "RTCM 2.3"
  nav := "GPS"
  fmtDetails := "1(1),3(60)"
  lat := config.stationLat
  lon := config.stationLon

/-- `_obs_client` and `_eph_client`, but for the mount. -/
def client (mountpoint : String) : NtripClient where
  host := config.upstreamHost
  mountpoint := mountpoint
  user := config.upstreamUser
  password := config.upstreamPassword

end Config

end Rtcm.Impl
