import Lodging.Client.Retry

/-!
The settings of a service, as the variables of its environment give them. A variable that is
missing, or makes no sense, leaves a setting at its default.
-/

namespace Lodging

/-- How the bookings reach an inventory elsewhere. Times are in milliseconds. -/
structure RemoteSettings where
  baseUrl : String
  maxAttempts : Nat
  backoff : List Nat
  connectTimeout : Nat
  readTimeout : Nat

namespace RemoteSettings

def standard : RemoteSettings where
  baseUrl := "http://127.0.0.1:3001"
  maxAttempts := 3
  backoff := RetryPolicy.defaultBackoff
  connectTimeout := 2000
  readTimeout := 3000

def policy (s : RemoteSettings) : RetryPolicy := .make s.maxAttempts s.backoff

end RemoteSettings

structure Settings where
  host : String
  port : Nat
  logLevel : String
  databaseUrl : Option String
  serviceToken : String
  inventory : RemoteSettings
  seedDemoRooms : Bool

namespace Settings

def bookingPort : Nat := 3000

def inventoryPort : Nat := 3001

def withPort (port : Nat) : Settings where
  host := "0.0.0.0"
  port := port
  logLevel := "info"
  databaseUrl := none
  serviceToken := "dev-service-token"
  inventory := .standard
  seedDemoRooms := true

/-- A number of at most so many bits, with white space around it. -/
def number? (bits : Nat) (s : String) : Option Nat :=
  Decimal.below? (Decimal.capacity bits) (trim s.toList)

def maxUInt32 : Nat := Decimal.capacity 32 - 1

/-- A number of attempts from 1 to the largest of 32 bits. -/
def attempts? (s : String) : Option Nat :=
  (number? 64 s).map fun n => max (min n maxUInt32) 1

/-- All texts but a few mean yes. -/
def affirmed (s : String) : Bool := ! ["false", "0", "no"].contains (trimmed s).toLower

def ofVariables (defaultPort : Nat) (value? : String → Option String) : Settings :=
  let d := withPort defaultPort
  let r := d.inventory
  let milliseconds name := (value? name).bind (number? 64)
  { host := (value? "HOST").getD d.host
    port := ((value? "PORT").bind (number? 16)).getD d.port
    logLevel := (value? "RUST_LOG").getD d.logLevel
    databaseUrl := (value? "DATABASE_URL").filter (! blank ·)
    serviceToken := (value? "SERVICE_TOKEN").getD d.serviceToken
    inventory :=
      { baseUrl := (value? "INVENTORY_BASE_URL").getD r.baseUrl
        maxAttempts :=
          ((value? "INVENTORY_RETRY_MAX_ATTEMPTS").bind attempts?).getD r.maxAttempts
        backoff := ((value? "INVENTORY_RETRY_BACKOFF_MS").map RetryPolicy.parseBackoff).getD r.backoff
        connectTimeout := (milliseconds "INVENTORY_CONNECT_TIMEOUT_MS").getD r.connectTimeout
        readTimeout := (milliseconds "INVENTORY_READ_TIMEOUT_MS").getD r.readTimeout }
    seedDemoRooms := ((value? "SEED_DEMO_ROOMS").map affirmed).getD d.seedDemoRooms }

/-- Where the service listens. -/
def address (s : Settings) : String := s!"{s.host}:{Decimal.nat s.port}"

end Settings

end Lodging
