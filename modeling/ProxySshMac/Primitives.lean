import ProxySshMac.Basic

/-!
# The collaborators of `mac.c`

The file calls into OpenSSL (`EVP_Digest*`, `HMAC_*`), into `umac.c`
(`proxy_ssh_umac_*`, `proxy_ssh_umac128_*`), into `crypto.c`
(`proxy_ssh_crypto_get_digest`, `proxy_ssh_crypto_get_size`), into
`session.c` (`proxy_ssh_session_get_id`) and into `interop.c`
(`proxy_ssh_interop_supports_feature`).  None of them is under `src/`.  The
primitives are opaque functions with the output lengths OpenSSL and UMAC
document (`Prims`), the digest table is a parameter with the two properties the
file relies on (`Catalog`), and the session id and the interop flag are fixed
for a session (`Env`).  Which primitive call fails is not part of the
primitives: it is an outcome chosen by the environment and carried by each
operation (`ProxySshMac.Session`).
-/

namespace ProxySshMac

/-- `const EVP_MD *`: a digest, with `EVP_MD_size` and `EVP_MD_block_size`. -/
structure EvpMd where
  name : String
  size : Nat
  blockSize : Nat
  deriving DecidableEq, Repr

/-- `EVP_md_null()`: no output and no block. -/
def EvpMd.null : EvpMd := ⟨"null", 0, 0⟩

/-- The two widths of `umac.c`: `struct umac_ctx` as `proxy_ssh_umac_alloc`
and as `proxy_ssh_umac128_alloc` lay it out. -/
inductive UmacWidth
  | w64
  | w128
  deriving DecidableEq, Repr

/-- The tag `proxy_ssh_umac_final` / `proxy_ssh_umac128_final` writes. -/
def UmacWidth.tagLen : UmacWidth → Nat
  | .w64 => 8
  | .w128 => 16

/-- `PROXY_SSH_MAC_ALGO_TYPE_*`, with `unset` for the `0` of the static
initialisers. -/
inductive AlgoType
  | unset
  | hmac
  | umac64
  | umac128
  deriving DecidableEq, Repr

/-- The algorithm type a UMAC context of this width serves. -/
def UmacWidth.algoType : UmacWidth → AlgoType
  | .w64 => .umac64
  | .w128 => .umac128

/-- The opaque primitives: a completed `EVP_DigestInit`/`Update`/`Final`, a
completed `HMAC_Init_ex`/`Update`/`Final` under a key, and a UMAC tag under
the key of the last `proxy_ssh_umac_init` with a nonce.  Each writes the number
of bytes its library documents. -/
structure Prims where
  digest : EvpMd → Bytes → Bytes
  digest_length : ∀ md m, (digest md m).length = md.size
  hmac : EvpMd → Bytes → Bytes → Bytes
  hmac_length : ∀ md key m, (hmac md key m).length = md.size
  umac : UmacWidth → Option Bytes → Bytes → Bytes → Bytes
  umac_length : ∀ w key nonce m, (umac w key nonce m).length = w.tagLen

/-- `proxy_ssh_crypto_get_digest(algo, &mac_len)`, a table of `crypto.c`: the
digest of an algorithm name and its truncated tag length (`0`: none).  The file
relies on two of its properties: `"none"` gives `EVP_md_null()` untruncated,
and every other name it knows has a digest with a block, which is the key
length `set_mac_key` rounds up. -/
structure Catalog where
  getDigest : String → Option (EvpMd × Nat)
  getDigest_none : getDigest "none" = some (EvpMd.null, 0)
  blockSize_pos : ∀ a md n, a ≠ "none" → getDigest a = some (md, n) → 0 < md.blockSize

/-- What a session fixes for every call: the primitives, the digest table,
`proxy_ssh_session_get_id`, and
`proxy_ssh_interop_supports_feature(PROXY_SSH_FEAT_MAC_LEN)`. -/
structure Env where
  prims : Prims
  catalog : Catalog
  sessionId : Bytes
  macLenFeature : Bool

/-- Primitives that sum bytes: no MAC, but computable, so the model can be run
on concrete inputs. -/
def Prims.toy : Prims where
  digest md m := List.replicate md.size (m.foldl (· + ·) 0)
  digest_length _ _ := List.length_replicate _ _
  hmac md key m := List.replicate md.size (key.foldl (· + ·) 0 + m.foldl (· + ·) 0)
  hmac_length _ _ _ := List.length_replicate _ _
  umac w key nonce m :=
    List.replicate w.tagLen ((key.getD []).foldl (· + ·) 0 + nonce.foldl (· + ·) 0 + m.foldl (· + ·) 0)
  umac_length _ _ _ _ := List.length_replicate _ _

/-- A digest with SHA-1's sizes. -/
def EvpMd.sha1 : EvpMd := ⟨"sha1", 20, 64⟩

/-- A digest with SHA-512's sizes. -/
def EvpMd.sha512 : EvpMd := ⟨"sha512", 64, 128⟩

/-- A digest table with the names `mac.c` tells apart: `"none"`, HMACs with
and without truncation, and the two UMACs. -/
def Catalog.toyTable : String → Option (EvpMd × Nat)
  | "none" => some (EvpMd.null, 0)
  | "hmac-sha1" => some (EvpMd.sha1, 0)
  | "hmac-sha1-96" => some (EvpMd.sha1, 12)
  | "hmac-sha2-256" => some (⟨"sha256", 32, 64⟩, 0)
  | "umac-64@openssh.com" => some (⟨"umac64", 8, 32⟩, 8)
  | "umac-128@openssh.com" => some (⟨"umac128", 16, 32⟩, 16)
  | _ => none

/-- `Catalog.toyTable` as a catalog. -/
def Catalog.toy : Catalog where
  getDigest := Catalog.toyTable
  getDigest_none := rfl
  blockSize_pos a md n _ h := by
    unfold Catalog.toyTable at h
    split at h <;> first | (cases h; decide) | simp_all

/-- A session of the computable primitives and table, with the interop flag. -/
def Env.toy : Env := ⟨Prims.toy, Catalog.toy, [9, 9], true⟩

/-- `PROXY_SSH_ROLE_CLIENT`, or any other role. -/
inductive Role
  | client
  | server
  deriving DecidableEq, Repr

/-- The other end of the connection. -/
def Role.opp : Role → Role
  | .client => .server
  | .server => .client

/-- The fields of `struct proxy_ssh_packet` that `get_mac` reads and writes. -/
structure Packet where
  seqno : UInt32
  packetLen : UInt32
  paddingLen : UInt8
  payloadLen : UInt32
  payload : Bytes
  padding : Bytes
  mac : Bytes
  macLen : Nat
  deriving DecidableEq, Repr

/-- `roundup(first, second)` of `sys/param.h`. -/
def roundUp (first second : Nat) : Nat := (first + (second - 1)) / second * second

/-- Modelled from the spec: `proxy_ssh_crypto_get_size(first, second)`
(`crypto.c`, not under `src/`) rounds `first` up to a multiple of `second`, the
required key length of §4.2; `second = 0` divides by zero. -/
def cryptoGetSize (first second : Nat) : Res Nat :=
  if second = 0 then .error .undefined else .ok (roundUp first second)

theorem cryptoGetSize_ok {first second : Nat} (h : 0 < second) :
    cryptoGetSize first second = .ok (roundUp first second) :=
  if_neg (Nat.pos_iff_ne_zero.mp h)

/-- The rounded size is the least multiple of `second` that is at least
`first`. -/
theorem roundUp_bounds (first second : Nat) (h : 0 < second) :
    first ≤ roundUp first second ∧ roundUp first second < first + second := by
  have h1 := Nat.div_add_mod (first + (second - 1)) second
  have h2 := Nat.mod_lt (first + (second - 1)) h
  constructor <;> rw [roundUp, Nat.mul_comm] <;> omega

theorem roundUp_div_mul (first second : Nat) (h : 0 < second) :
    roundUp first second / second * second = roundUp first second := by
  rw [roundUp, Nat.mul_div_cancel _ h]

/-- A nonempty size rounds up to at least one block. -/
theorem roundUp_div_pos {first second : Nat} (hs : 0 < second) (hf : 0 < first) :
    0 < roundUp first second / second :=
  Nat.pos_of_mul_pos_right
    (roundUp_div_mul first second hs ▸ lt_of_lt_of_le hf (roundUp_bounds first second hs).1)

end ProxySshMac
