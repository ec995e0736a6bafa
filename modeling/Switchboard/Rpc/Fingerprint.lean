import Switchboard.Rpc.Request
import Switchboard.Sha256

/-! What tells requests apart: service, endpoint and body. -/
namespace Switchboard.Rpc.Request

def lengthPrefixed (b : Bytes) : Bytes := Bytes.be64 b.length ++ b

def identity (r : Request) : Bytes :=
  lengthPrefixed (Bytes.ofString r.service) ++ lengthPrefixed (Bytes.ofString r.endpoint) ++
    lengthPrefixed r.body

def fingerprint (r : Request) : String := Bytes.toHex (Sha256.digest r.identity)

end Switchboard.Rpc.Request
