import Mathlib.Data.List.DropRight
import Netcfgd.EventLog

/-!
# The store of seen hosts

The recorder of `src/host/seen.c` writes the hosts a machine sees into the records of a store, and
reads back the stations any host wrote there. Whichever process is the face of the store is asked
one line at a time (`ask`) : over a socket, or in this process where it is the face itself. What
the face answers is not the recorder's, so it is a parameter (`Face`).

A record's key is `seen/<interface>/<mac>` (`seenKey`), the address with dashes.
-/

namespace Netcfgd.Seen

open Netcfgd.Json (ascii asciis)
open Netcfgd.Pages (decimal escapes)

abbrev Bytes := List UInt8

/-- `NCFG_SEEN_KEY_MAX`. -/
def keyMax : ℕ := 64

/-- `NCFG_SEEN_VALUE_MAX`. -/
def valueMax : ℕ := 256

/-- `NCFG_SEEN_REFRESH_SECONDS`. -/
def refreshSeconds : ℕ := 24 * 60 * 60

/-- `NCFG_SEEN_RETRY_SECONDS`. -/
def retrySeconds : ℕ := 60

/-- `NCFG_SEEN_HELD_MAX`. -/
def heldMax : ℕ := 4096

/-- `NCFG_SEEN_READ_PAGES`. -/
def readPages : ℕ := 32

/-- `NCFG_SEEN_READ_SECONDS`. -/
def readSeconds : ℕ := 60

/-- `NCFG_SEEN_STATIONS_MAX`. -/
def stationsMax : ℕ := 4096

/-! ## Asking the face of the store -/

/-- What a line asked comes to : a reply, or why there is none, `silent` where nobody answered. -/
inductive Answer where
  | reply (text : Bytes)
  | failed (silent : Bool) (why : Bytes)

/-- The process that serves the store : this one, which writes the line it answers with, or another
one at a socket. `served` is false where the store's `face` file names nobody ; `ask` is
`ncfg_fuzznet_ask` with the room there is for a reply. -/
inductive Face where
  | inProcess (serve : Bytes → Bytes)
  | socket (served : Bool) (ask : Bytes → ℕ → Answer)

def Face.unserved : Face → Bool
  | .inProcess _ => false
  | .socket served _ => !served

def cString (buffer : Bytes) : Bytes := buffer.takeWhile (· ≠ 0)

def trimEnds (ends : UInt8 → Bool) (text : Bytes) : Bytes := text.rdropWhile ends

/-- The room of `bare`. -/
def bareRoom : ℕ := 2048

/-- `ask` : one line asked of whichever serves the store. -/
def ask (face : Face) (line : Bytes) (room : ℕ) : Answer :=
  match face with
  | .socket _ fuzznetAsk =>
    match fuzznetAsk line room with
    | .reply text => .reply (cString text)
    | failed => failed
  | .inProcess serve =>
    if bareRoom ≤ line.length then .failed false (asciis "the request is too long to ask")
    else
      let wrote := serve (trimEnds (· = ascii '\n') line)
      if wrote.length = 0 ∨ room ≤ wrote.length then
        .failed true (asciis "this node is not serving its store yet")
      else .reply (cString (trimEnds (fun c => c = ascii '\n' || c = ascii '\r') wrote))

end Netcfgd.Seen
