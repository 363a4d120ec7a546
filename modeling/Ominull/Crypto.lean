import Ominull.Lib.Text

namespace Ominull

/-- The cryptographic primitives, which the development takes as given: SHA-256 and Ed25519 over
byte strings, and the check of a DER signature against the release key compiled into the agents. -/
structure Crypto where
  sha256 : Str → Str
  publicKey : Str → Str
  sign : Str → Str → Str
  verify : Str → Str → Str → Bool
  verifyRelease : Str → Str → Bool

/-- A concrete instance for running the model. A signature is the key followed by the end of the
message read backwards, and a key is its own public key. -/
def Crypto.sample : Crypto where
  sha256 s := (s ++ List.replicate 32 0).take 32
  publicKey k := k
  sign k m := (k ++ List.replicate 32 0).take 32 ++ (m.reverse ++ List.replicate 32 0).take 32
  verify k m sig := sig = (k ++ List.replicate 32 0).take 32 ++ (m.reverse ++ List.replicate 32 0).take 32
  verifyRelease m sig := sig = m.reverse.take 8

/-- Authenticated encryption, taken as given as well: AES-256-GCM over a key, a nonce, the text and
the associated data. -/
structure Aead where
  encrypt : Str → Str → Str → Str → Str
  decrypt : Str → Str → Str → Str → Option Str

/-- A concrete instance for running the model: the associated data is put behind the text. -/
def Aead.sample : Aead where
  encrypt _ _ text aad := text ++ aad
  decrypt _ _ sealed aad :=
    if aad.isSuffixOf sealed then some (sealed.take (sealed.length - aad.length)) else none

end Ominull
