/-
OvsSgx.TlsSessions — TLS connections of the enclave wrapper.

Models the SSL functions of TLSonSGX: untrusted/wrapper_sgx.cpp takes a
handle and does not pass it on, and trusted/enclave.c works on the one
session that its static `ssl` points to. `SSL_new` lets `ssl` point to a new
session and `SSL_free` sets it to null. What the mbedTLS library does to the
session that it is given is a parameter; if it cannot set a session up, the
session's `ssl_ctx` stays null, and `SSL_free` follows that pointer. A handle
sees its own results as long as each of its calls comes while its session is
the current one, and sessions that are freed were set up.
-/
import Mathlib.Tactic

namespace OvsSgx

/-! ## Sessions -/

/-- The mbedTLS functions: a session is its `ssl_context`, and what is sent and received goes
through a file descriptor. `initial` is the context that `ecall_ssl_new` configures from
`ctx`; `setup` is `none` if `mbedtls_ssl_setup` fails. -/
structure Mbedtls (κ : Type) where
  initial : κ
  setup : κ → Option κ
  setBio : κ → Int → κ
  handshake : κ → Int → κ × Int
  read : κ → Int → Nat → κ × Int × List UInt8
  write : κ → Int → List UInt8 → κ × Int
  closeNotify : κ → Int → κ × Int

/-- `struct ps_ssl`; of `ssl_ctx` it matters whether it is a null pointer. -/
structure SslSession (κ : Type) where
  cntx : κ
  lastError : Int
  fd : Int
  hasCtx : Bool
deriving DecidableEq

/-- The static `ssl`, the sessions that were allocated, and the next one. -/
structure TlsEnclave (κ : Type) where
  ssl : Option Nat
  session : Nat → SslSession κ
  nextSession : Nat

/-- The functions of the wrapper that take a handle, with the arguments besides the handle. -/
inductive SslCall where
  | new
  | setFd (fd : Int)
  | connect
  | accept
  | read (num : Nat)
  | write (buf : List UInt8)
  | getError
  | shutdown
  | free
deriving DecidableEq

/-- What a call returns and fills in, and the session that it acts on. -/
structure SslObserved (κ : Type) where
  ret : Int
  data : List UInt8
  session : Option (SslSession κ)
deriving DecidableEq

variable {κ : Type}

/-- `ecall_ssl_new`: the session that is allocated. -/
def ecallSslNew (tls : Mbedtls κ) : SslSession κ :=
  match tls.setup tls.initial with
  | none => ⟨tls.initial, 0, 0, false⟩
  | some cntx => ⟨cntx, 0, -1, true⟩

/-- The ecalls that follow `ssl`: the session after the call, the value and the data. The
result of `mbedtls_ssl_handshake` is 0 on success, that of `ecall_ssl_connect` is then 1. -/
def SslCall.onSession (tls : Mbedtls κ) (s : SslSession κ) :
    SslCall → SslSession κ × Int × List UInt8
  | .setFd fd => ({ s with cntx := tls.setBio s.cntx fd, fd := fd, lastError := 0 }, 1, [])
  | .connect =>
    let (cntx, ret) := tls.handshake s.cntx s.fd
    let ret := if ret = 0 then 1 else ret
    ({ s with cntx := cntx, lastError := ret }, ret, [])
  | .accept =>
    let (cntx, ret) := tls.handshake s.cntx s.fd
    ({ s with cntx := cntx, lastError := ret }, ret, [])
  | .read num =>
    let (cntx, ret, data) := tls.read s.cntx s.fd num
    ({ s with cntx := cntx, lastError := ret }, ret, data)
  | .write buf =>
    let (cntx, ret) := tls.write s.cntx s.fd buf
    ({ s with cntx := cntx, lastError := ret }, ret, [])
  | .shutdown =>
    let (cntx, ret) := tls.closeNotify s.cntx s.fd
    ({ s with cntx := cntx }, ret, [])
  | .getError => (s, s.lastError, [])
  | .free => ({ s with hasCtx := false }, 0, [])
  | .new => (s, 0, [])

/-- A call in the enclave; `none` if it follows a null pointer. Only `ecall_ssl_get_error`
checks `ssl` before it follows it, and `ecall_ssl_free` also follows `ssl->ssl_ctx`. -/
def TlsEnclave.exec (tls : Mbedtls κ) (s : TlsEnclave κ) (c : SslCall) :
    Option (TlsEnclave κ × SslObserved κ) :=
  if c = .new then
    let session := ecallSslNew tls
    some (⟨some s.nextSession, Function.update s.session s.nextSession session,
      s.nextSession + 1⟩, ⟨0, [], some session⟩)
  else
    match s.ssl with
    | none => if c = .getError then some (s, ⟨100, [], none⟩) else none
    | some k =>
      if c = .free ∧ (s.session k).hasCtx = false then none
      else
        let (session, ret, data) := c.onSession tls (s.session k)
        some ({ s with
            ssl := if c = .free then none else some k
            session := Function.update s.session k session },
          ⟨ret, data, some (s.session k)⟩)

/-- No connection has been opened; the memory of sessions is arbitrary. -/
def TlsEnclave.init (session : Nat → SslSession κ) : TlsEnclave κ := ⟨none, session, 0⟩

/-! ## Isolation -/

/-- Sessions are set up, or none is freed. -/
def FreesSetUp (tls : Mbedtls κ) (tr : List (Nat × SslCall)) : Prop :=
  (tls.setup tls.initial).isSome ∨ ∀ e ∈ tr, e.2 ≠ .free

variable {tls : Mbedtls κ} {s t : TlsEnclave κ} {c : SslCall} {turn : Option Nat} {h : Nat}

theorem FreesSetUp.tail {e : Nat × SslCall} {tr : List (Nat × SslCall)}
    (h : FreesSetUp tls (e :: tr)) : FreesSetUp tls tr :=
  h.imp_right (fun hno e he => hno e (List.mem_cons_of_mem _ he))

theorem FreesSetUp.head {tr : List (Nat × SslCall)} (hset : FreesSetUp tls ((h, c) :: tr))
    (hfree : c = .free) : (tls.setup tls.initial).isSome :=
  hset.resolve_right (fun hno => hno (h, c) (List.mem_cons_self ..) hfree)

end OvsSgx
