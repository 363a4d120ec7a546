import Ominull.Lib.Framing
import Ominull.Response.Types

/-!
The signed byte forms of the hub's canonical encoder: every string behind its length, integers of
fixed width, hex identifiers trimmed and lower-cased.
-/

namespace Ominull.Response

open Go Lib

def writeUint32 (n : Int) : Str := bigEndian 4 (n % 2 ^ 32).toNat

def writeInt64 (n : Int) : Str := bigEndian 8 (unsigned64 n)

/-- What `WriteHexNormalized` makes of an identifier. -/
def hexNormalized (s : Str) : Str := toLower (trimSpace s)

def writeHexNormalized (s : Str) : Str := frame (hexNormalized s)

def EndpointGrant.tag (g : EndpointGrant) : Str :=
  if g.version = grantVersionJob then str "OMINULL-ENDPOINT-GRANT-V3"
  else str "OMINULL-ENDPOINT-GRANT-V2"

def EndpointGrant.canonicalBytes (g : EndpointGrant) : Str :=
  frame g.tag ++ (writeUint32 g.version ++ (frame g.grantID ++ (frame g.tenantID ++
    (frame g.endpointID ++ (frame g.actionKind ++ (writeHexNormalized g.actionDigest ++
    (frame g.operatorID ++ (frame g.responseSessionID ++ (writeInt64 g.issuedAt ++
    (writeInt64 g.expiresAt ++ (writeHexNormalized g.nonce ++
    ((if g.version = grantVersionJob then frame g.jobID else []) ++
    writeHexNormalized g.signerKeyID))))))))))))

theorem writeUint32_append_inj {m n : Int} {r r' : Str} (h : writeUint32 m ++ r = writeUint32 n ++ r') :
    m % 2 ^ 32 = n % 2 ^ 32 ∧ r = r' := by
  obtain ⟨hnum, hrest⟩ := bigEndian_append_inj (by omega) (by omega) h
  exact ⟨by omega, hrest⟩

theorem writeInt64_append_inj {m n : Int} {r r' : Str} (hm : -2 ^ 63 ≤ m ∧ m < 2 ^ 63)
    (hn : -2 ^ 63 ≤ n ∧ n < 2 ^ 63) (h : writeInt64 m ++ r = writeInt64 n ++ r') : m = n ∧ r = r' := by
  obtain ⟨hnum, hrest⟩ := bigEndian_append_inj (unsigned64_lt m) (unsigned64_lt n) h
  exact ⟨unsigned64_inj hm hn hnum, hrest⟩

end Ominull.Response
