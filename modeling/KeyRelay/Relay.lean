import KeyRelay.Session
import KeyRelay.Material

/-!
Relaying a key along a session's path. The first hop masks the application key with a one-time
key carved from its first link and forwards the base64 of the XOR; each later hop replays its
copy of the one-time key, recovers the key, and masks it again for the next link or, at the
last hop, keeps it for the slave application. Key bytes travel masked only.

Unmasking checks, in order: the cipher is base64, its length in bits is the announced size,
and the one-time key has its length.
-/
namespace KeyRelay

/-- The role of `me` on a session's path; a node off the path is a protocol violation. -/
def SessionRecord.role (r : SessionRecord) (me : KmeId) : Except Fault Role :=
  match Role.onPath r.path me with
  | some role => .ok role
  | none => .error (.violation (.notOnPath me r.ksid))

namespace Relay

/-- The base64 of `key ^ otk`. -/
def wrap (key otk : Material) : Except Fault String := do
  pure (← key.xor otk).encode

/-- Recovers a key from its masked transmission of `size` bits. -/
def unwrap (cipher : String) (otk : Material) (size : Nat) : Except Fault Material := do
  let c ← Material.decode cipher
  if c.bitLen ≠ size then throw (.violation (.cipherSize c.bitLen size))
  c.xor otk

end Relay

end KeyRelay
