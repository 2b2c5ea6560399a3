/-
OvsSgx.SealedResources — the sealed credentials on disk.

Models `SSL_library_init` of TLSonSGX with the enclave's `generate_keys`.
Three files hold the sealed CA certificate, certificate and private key. If
all three exist they are loaded; otherwise new credentials are requested and
the files are overwritten one after the other. A write can fail and the
process can stop anywhere, so a file may hold only the first bytes of its
image. The output is buffered, so `fwrite` may succeed and only `fclose` see
that bytes are lost; its result is not looked at, and the next file is
written. Whether the set is complete is judged by the existence of the files.
-/
import Mathlib.Tactic

namespace OvsSgx

/-- `SSL_RESOURCE_CA_CERT`, `SSL_RESOURCE_CERT` and `SSL_RESOURCE_PK`. -/
inductive SslResource where
  | caCert
  | cert
  | pk
deriving DecidableEq, Repr

/-- A file: `n` bytes of the image that was written for the credentials of run `gen` of
`generate_keys`. The image is a byte for the type and the sealed data. A file with any other
number of bytes than its image, or with other bytes, does not unseal. -/
structure FileImage where
  gen : Nat
  n : Nat
deriving DecidableEq, Repr

/-- The sizes of the images; none is empty. -/
structure ImageSize where
  size : SslResource → Nat → Nat
  pos : ∀ r g, 0 < size r g

/-- The whole image for run `g`. -/
def ImageSize.whole (z : ImageSize) (r : SslResource) (g : Nat) : FileImage := ⟨g, z.size r g⟩

/-- What happens to one file in the loop that writes them: `fopen` fails and the loop goes on;
all of it is written; only its first `n` bytes arrive and the loop ends there, because `fwrite`
fails or the process stops; or only its first `n` bytes arrive and the loop goes on, because
`fclose` is the first to see the error. -/
inductive WriteFate where
  | openFailed
  | written
  | cut (n : Nat)
  | lost (n : Nat)
deriving DecidableEq, Repr

variable {z : ImageSize} {files : SealedFiles} {g : Nat} {fates : List WriteFate}

/-- The loop goes on after this file. -/
def WriteFate.goesOn : Option WriteFate → Bool
  | some .openFailed => true
  | some .written => true
  | some (.lost _) => true
  | _ => false

end OvsSgx
