/-
OvsSgx.TlsCredentials — the credentials in the TLS enclave.

Models `ecall_ssl_library_init`, `generate_keys` and `ecall_ssl_ctx_new` of
TLSonSGX/trusted/enclave.c on the globals `cacert`, `cert`, `key` and
`keys_generated`. `generate_keys` loads the sealed resources if there are all
three and otherwise asks the CA for a certificate. It reports nothing to its
caller, which sets `keys_generated` in any case, and a later attempt is then
not made.

mbedTLS and the sealing functions of SGX are parameters, and so is what comes
back from the CA. A failing assertion and a read through a null pointer
return `none`. What is sealed for the files is left to `SealedResources`.
-/
import OvsSgx.SealedResources

namespace OvsSgx

/-! ## Globals -/

/-- What a `mbedtls_x509_crt *` points to: nothing, memory that has been freed, a certificate
that was initialised only, or one that was parsed. -/
inductive CrtPtr (C : Type) where
  | null
  | freed
  | unparsed
  | parsed (crt : C)
deriving DecidableEq, Repr

/-- A `mbedtls_pk_context`: initialised, set up for RSA, or with a key. -/
inductive PkContext (K : Type) where
  | init
  | setUp
  | loaded (key : K)
deriving DecidableEq, Repr

/-- The static variables of the enclave. -/
structure TlsGlobals (K C : Type) where
  cacert : CrtPtr C
  cert : CrtPtr C
  key : PkContext K
  keysGenerated : Bool
deriving DecidableEq, Repr

/-- The enclave when it has been created. -/
def TlsGlobals.init (K C : Type) : TlsGlobals K C := ⟨.null, .null, .init, false⟩

/-! ## The library -/

/-- What the enclave uses of SGX and mbedTLS: `sgx_unseal_data` and `mbedtls_x509_crt_parse`,
`none` if they fail, `mbedtls_pk_parse_key`, with the context that it leaves, and what the
certificate of `mbedtls_ssl_get_peer_cert` has become when `mbedtls_ssl_free` returns. -/
structure TlsLibrary (K C : Type) where
  unsealData : List UInt8 → Option (List UInt8)
  x509CrtParse : List UInt8 → Option C
  pkParseKey : PkContext K → List UInt8 → PkContext K
  peerCertAfterFree : C → CrtPtr C

/-- `SSL_resource`, with the first `len` bytes of `sealed_data`. -/
structure SealedResource where
  sealedData : List UInt8
  type : UInt8
  «exists» : Bool
deriving DecidableEq, Repr

/-- `SSL_RESOURCE_CA_CERT`, `SSL_RESOURCE_CERT` and `SSL_RESOURCE_PK` by their numbers. -/
def SslResource.ofType (type : UInt8) : Option SslResource :=
  if type = 0 then some .caCert
  else if type = 1 then some .cert
  else if type = 2 then some .pk
  else none

/-- What happens while new credentials are requested: whether `mbedtls_pk_setup` succeeds, the
key of `mbedtls_rsa_gen_key` if it succeeds, whether the handshake with the CA succeeds, its
answers to the measurement and to the request for a certificate, and its own certificate. -/
structure CaExchange (K C : Type) where
  pkSetup : Bool
  rsaGenKey : Option K
  handshake : Bool
  imaRes : String
  cerBuf : List UInt8
  peerCert : Option C

variable {K C : Type}

/-! ## Loading and generating -/

/-- `unseal_certificate`. -/
def unsealCertificate (lib : TlsLibrary K C) (sealedData : List UInt8) : CrtPtr C :=
  match (lib.unsealData sealedData).bind lib.x509CrtParse with
  | none => .null
  | some crt => .parsed crt

/-- `unseal_key`. The key is parsed with a terminating zero. -/
def unsealKey (lib : TlsLibrary K C) (sealedData : List UInt8) (key : PkContext K) : PkContext K :=
  match lib.unsealData sealedData with
  | none => key
  | some text => lib.pkParseKey key (text ++ [0])

/-- One round of `load_sealed_ssl_resources`. -/
def loadResource (lib : TlsLibrary K C) (s : TlsGlobals K C) (r : SealedResource) :
    Option (TlsGlobals K C) :=
  match SslResource.ofType r.type with
  | some .caCert => some { s with cacert := unsealCertificate lib r.sealedData }
  | some .cert => some { s with cert := unsealCertificate lib r.sealedData }
  | some .pk => some { s with key := unsealKey lib r.sealedData s.key }
  | none => none

/-- `load_sealed_ssl_resources`. -/
def loadSealedSslResources (lib : TlsLibrary K C) (s : TlsGlobals K C)
    (rs : Fin 3 → SealedResource) : Option (TlsGlobals K C) :=
  [rs 0, rs 1, rs 2].foldlM (loadResource lib) s

/-- `strstr (cer_buf, "-----")`: the answer from the dashes on. -/
def strstrDashes : List UInt8 → Option (List UInt8)
  | [] => none
  | b :: rest =>
    if b = 0 then none
    else if [45, 45, 45, 45, 45].isPrefixOf (b :: rest) then some (b :: rest)
    else strstrDashes rest

/-- `generate_keys`: the globals, and whether `write_resources_to_disk` is set. -/
def generateKeys (lib : TlsLibrary K C) (s : TlsGlobals K C) (rs : Fin 3 → SealedResource)
    (ca : CaExchange K C) : Option (TlsGlobals K C × Bool) :=
  let s := { s with key := .init }
  if (rs 0).exists && (rs 1).exists && (rs 2).exists then do
    let s ← loadSealedSslResources lib s rs
    return (s, false)
  else if !ca.pkSetup then some (s, false)
  else
    match ca.rsaGenKey with
    | none => some ({ s with key := .setUp }, false)
    | some k =>
      let s := { s with key := .loaded k }
      if !ca.handshake then some (s, false)
      else if ca.imaRes ≠ "MOK" then some (s, false)
      else do
        let s := { s with cert := .unparsed }
        let text ← strstrDashes ca.cerBuf
        match lib.x509CrtParse (text ++ [0]) with
        | none => return (s, false)
        | some crt =>
          let s := { s with cert := .parsed crt }
          -- A missing certificate is reported, and then `cacert->raw` is read.
          let peer ← ca.peerCert
          return ({ s with cacert := lib.peerCertAfterFree peer }, true)

/-- What a call of `ecall_ssl_library_init` meets: whether `mbedtls_ctr_drbg_seed` succeeds, the
resources it is given, and the exchange with the CA. -/
structure LibraryInit (K C : Type) where
  seed : Bool
  rs : Fin 3 → SealedResource
  ca : CaExchange K C

/-- `ecall_ssl_library_init`. -/
def ecallSslLibraryInit (lib : TlsLibrary K C) (s : TlsGlobals K C) (i : LibraryInit K C) :
    Option (TlsGlobals K C × Bool) :=
  if !i.seed then some (s, false)
  else if !s.keysGenerated then do
    let (s, write) ← generateKeys lib s i.rs i.ca
    return ({ s with keysGenerated := true }, write)
  else some (s, false)

/-- `*crt`: the certificate, `none` inside for one that was initialised only. -/
def CrtPtr.read : CrtPtr C → Option (Option C)
  | .null => none
  | .freed => none
  | .unparsed => some none
  | .parsed crt => some (some crt)

/-- The members of `SSL_CTX` that `ecall_ssl_ctx_new` copies. -/
structure SslCtx (K C : Type) where
  caCert : Option C
  cert : Option C
  pk : PkContext K
deriving DecidableEq, Repr

/-- `ecall_ssl_ctx_new`. -/
def ecallSslCtxNew (s : TlsGlobals K C) : Option (SslCtx K C) := do
  let caCert ← s.cacert.read
  let cert ← s.cert.read
  return ⟨caCert, cert, s.key⟩

/-! ## What is to hold -/

/-- The resources have the three types; these are their places. -/
def Roles (rs : Fin 3 → SealedResource) (caCert cert pk : Fin 3) : Prop :=
  SslResource.ofType (rs caCert).type = some .caCert ∧
    SslResource.ofType (rs cert).type = some .cert ∧ SslResource.ofType (rs pk).type = some .pk

section Property

variable (belong : C → C → K → Prop)

/-- Certificates and key are there and belong together. -/
def TlsGlobals.InPlace (s : TlsGlobals K C) : Prop :=
  ∃ caCert cert key, s.cacert = .parsed caCert ∧ s.cert = .parsed cert ∧ s.key = .loaded key ∧
    belong caCert cert key

/-- Keys that count as generated are in place and can be copied, and an attempt that did not put
them in place can be repeated. -/
structure CredentialsOk (lib : TlsLibrary K C) (s : TlsGlobals K C) : Prop where
  inPlace : s.keysGenerated = true → s.InPlace belong
  copied : s.keysGenerated = true → (ecallSslCtxNew s).isSome = true
  repeatable : ¬ s.InPlace belong → ∀ i : LibraryInit K C, i.seed = true →
    ecallSslLibraryInit lib s i = (generateKeys lib s i.rs i.ca).map fun res =>
      ({ res.1 with keysGenerated := true }, res.2)

/-- The calls return one after the other, and `P` holds in every state on the way. -/
def AlongCalls (lib : TlsLibrary K C) (P : TlsGlobals K C → Prop) :
    TlsGlobals K C → List (LibraryInit K C) → Prop
  | s, [] => P s
  | s, i :: rest => P s ∧ ∃ s' write, ecallSslLibraryInit lib s i = some (s', write) ∧
    AlongCalls lib P s' rest

/-- The sealed resources are a CA certificate, a certificate and a key that belong together. -/
def SealedTogether (lib : TlsLibrary K C) (rs : Fin 3 → SealedResource) : Prop :=
  ∃ i j k, Roles rs i j k ∧ ∃ caCert cert text key, belong caCert cert key ∧
    (lib.unsealData (rs i).sealedData).bind lib.x509CrtParse = some caCert ∧
    (lib.unsealData (rs j).sealedData).bind lib.x509CrtParse = some cert ∧
    lib.unsealData (rs k).sealedData = some text ∧
    lib.pkParseKey .init (text ++ [0]) = .loaded key

/-- Every step of the exchange succeeds, the CA answers with a certificate for the key, and its
own certificate outlives the session. -/
def ExchangeSucceeds (lib : TlsLibrary K C) (ca : CaExchange K C) : Prop :=
  ca.pkSetup = true ∧ ca.handshake = true ∧ ca.imaRes = "MOK" ∧
    ∃ key text cert peer caCert, ca.rsaGenKey = some key ∧ strstrDashes ca.cerBuf = some text ∧
      lib.x509CrtParse (text ++ [0]) = some cert ∧ ca.peerCert = some peer ∧
      lib.peerCertAfterFree peer = .parsed caCert ∧ belong caCert cert key

/-- A first attempt with this input puts the credentials in place. -/
def Provides (lib : TlsLibrary K C) (i : LibraryInit K C) : Prop :=
  if ∀ j, (i.rs j).exists = true then SealedTogether belong lib i.rs
  else ExchangeSucceeds belong lib i.ca

end Property

/-! ## One attempt -/

section Attempt

variable {belong : C → C → K → Prop} {lib : TlsLibrary K C} {s : TlsGlobals K C}

theorem unsealCertificate_parsed {sealedData : List UInt8} {crt : C} :
    unsealCertificate lib sealedData = .parsed crt ↔
      (lib.unsealData sealedData).bind lib.x509CrtParse = some crt := by
  unfold unsealCertificate
  cases (lib.unsealData sealedData).bind lib.x509CrtParse with
  | none => simp
  | some crt' => simp

theorem unsealKey_loaded {sealedData : List UInt8} {key : K} :
    unsealKey lib sealedData .init = .loaded key ↔
      ∃ text, lib.unsealData sealedData = some text ∧
        lib.pkParseKey .init (text ++ [0]) = .loaded key := by
  unfold unsealKey
  cases lib.unsealData sealedData with
  | none => simp
  | some text => simp

theorem loadSealed_of_roles {rs : Fin 3 → SealedResource} {i j k : Fin 3} (h : Roles rs i j k) :
    loadSealedSslResources lib (TlsGlobals.init K C) rs = some
      ⟨unsealCertificate lib (rs i).sealedData, unsealCertificate lib (rs j).sealedData,
        unsealKey lib (rs k).sealedData .init, false⟩ := by
  obtain ⟨hi, hj, hk⟩ := h
  have hij : i ≠ j := by
    rintro rfl
    rw [hi] at hj
    cases hj
  have hik : i ≠ k := by
    rintro rfl
    rw [hi] at hk
    cases hk
  have hjk : j ≠ k := by
    rintro rfl
    rw [hj] at hk
    cases hk
  fin_cases i <;> fin_cases j <;> fin_cases k <;>
    simp_all [loadSealedSslResources, loadResource, TlsGlobals.init]

/-- If nothing is left as it was, the resources have the three types. -/
theorem roles_of_loadSealed {rs : Fin 3 → SealedResource} {s' : TlsGlobals K C}
    (hs : loadSealedSslResources lib (TlsGlobals.init K C) rs = some s')
    (hca : s'.cacert ≠ .null) (hcert : s'.cert ≠ .null) (hkey : s'.key ≠ .init) :
    ∃ i j k, Roles rs i j k := by
  simp only [loadSealedSslResources, List.foldlM_cons, List.foldlM_nil, loadResource,
    TlsGlobals.init] at hs
  cases h0 : SslResource.ofType (rs 0).type with
  | none => simp [h0] at hs
  | some t0 =>
    cases h1 : SslResource.ofType (rs 1).type with
    | none => cases t0 <;> simp [h0, h1] at hs
    | some t1 =>
      cases h2 : SslResource.ofType (rs 2).type with
      | none => cases t0 <;> cases t1 <;> simp [h0, h1, h2] at hs
      | some t2 =>
        simp only [Roles]
        cases t0 <;> cases t1 <;> cases t2 <;> simp [h0, h1, h2] at hs <;> subst hs <;>
          first
            | exact absurd rfl hca
            | exact absurd rfl hcert
            | exact absurd rfl hkey
            | exact ⟨_, _, _, h0, h1, h2⟩
            | exact ⟨_, _, _, h0, h2, h1⟩
            | exact ⟨_, _, _, h1, h0, h2⟩
            | exact ⟨_, _, _, h1, h2, h0⟩
            | exact ⟨_, _, _, h2, h0, h1⟩
            | exact ⟨_, _, _, h2, h1, h0⟩

theorem loadSealed_inPlace (rs : Fin 3 → SealedResource) :
    (∃ s', loadSealedSslResources lib (TlsGlobals.init K C) rs = some s' ∧ s'.InPlace belong) ↔
      SealedTogether belong lib rs := by
  constructor
  · rintro ⟨s', hs, caCert, cert, key, hca, hcert, hkey, hbelong⟩
    obtain ⟨i, j, k, hroles⟩ := roles_of_loadSealed hs (by simp [hca]) (by simp [hcert])
      (by simp [hkey])
    rw [loadSealed_of_roles hroles, Option.some.injEq] at hs
    subst hs
    obtain ⟨text, htext, hkey⟩ := unsealKey_loaded.mp hkey
    exact ⟨i, j, k, hroles, caCert, cert, text, key, hbelong, unsealCertificate_parsed.mp hca,
      unsealCertificate_parsed.mp hcert, htext, hkey⟩
  · rintro ⟨i, j, k, hroles, caCert, cert, text, key, hbelong, hca, hcert, htext, hkey⟩
    exact ⟨_, loadSealed_of_roles hroles, caCert, cert, key, unsealCertificate_parsed.mpr hca,
      unsealCertificate_parsed.mpr hcert, unsealKey_loaded.mpr ⟨text, htext, hkey⟩, hbelong⟩

/-- The requests to the CA end with the credentials in place if and only if all steps succeed. -/
theorem generateKeys_exchange {rs : Fin 3 → SealedResource} (ca : CaExchange K C)
    (hmissing : ¬ ∀ j, (rs j).exists = true) :
    (∃ s' write, generateKeys lib (TlsGlobals.init K C) rs ca = some (s', write) ∧
      s'.InPlace belong) ↔ ExchangeSucceeds belong lib ca := by
  have hexists : ((rs 0).exists && (rs 1).exists && (rs 2).exists) = false := by
    simpa [Fin.forall_fin_succ, and_assoc] using hmissing
  unfold generateKeys ExchangeSucceeds
  rw [hexists, if_neg Bool.false_ne_true]
  -- A step that fails leaves the certificate of the CA missing.
  cases hsetup : ca.pkSetup with
  | false => simp [TlsGlobals.InPlace, TlsGlobals.init]
  | true =>
    cases hkey : ca.rsaGenKey with
    | none => simp [TlsGlobals.InPlace, TlsGlobals.init]
    | some key =>
      cases hshake : ca.handshake with
      | false => simp [TlsGlobals.InPlace, TlsGlobals.init]
      | true =>
        by_cases hima : ca.imaRes = "MOK"
        · cases htext : strstrDashes ca.cerBuf with
          | none => simp [hima]
          | some text =>
            cases hcert : lib.x509CrtParse (text ++ [0]) with
            | none => simp [hima, hcert, TlsGlobals.InPlace, TlsGlobals.init]
            | some cert =>
              cases hpeer : ca.peerCert with
              | none => simp [hima, hcert]
              | some peer => simp [hima, hcert, TlsGlobals.InPlace, TlsGlobals.init]
        · simp [hima, TlsGlobals.InPlace, TlsGlobals.init]

theorem generateKeys_inPlace (i : LibraryInit K C) :
    (∃ s' write, generateKeys lib (TlsGlobals.init K C) i.rs i.ca = some (s', write) ∧
      s'.InPlace belong) ↔ Provides belong lib i := by
  unfold Provides
  split
  · rename_i hall
    rw [← loadSealed_inPlace]
    have hexists : ((i.rs 0).exists && (i.rs 1).exists && (i.rs 2).exists) = true := by
      simp [hall]
    have hcall : generateKeys lib (TlsGlobals.init K C) i.rs i.ca
        = (loadSealedSslResources lib (TlsGlobals.init K C) i.rs).map fun s => (s, false) := by
      unfold generateKeys
      rw [if_pos hexists]
      show (loadSealedSslResources lib (TlsGlobals.init K C) i.rs).bind _ = _
      cases loadSealedSslResources lib (TlsGlobals.init K C) i.rs <;> rfl
    rw [hcall]
    simp
  · rename_i hmissing
    exact generateKeys_exchange i.ca hmissing

end Attempt

/-! ## All calls -/

section Calls

variable {belong : C → C → K → Prop} {lib : TlsLibrary K C} {s : TlsGlobals K C}

theorem TlsGlobals.InPlace.copied (h : s.InPlace belong) : (ecallSslCtxNew s).isSome = true := by
  obtain ⟨caCert, cert, key, hca, hcert, -⟩ := h
  simp [ecallSslCtxNew, hca, hcert, CrtPtr.read]

/-- The three parts come down to the first. -/
theorem credentialsOk_iff :
    CredentialsOk belong lib s ↔ (s.keysGenerated = true → s.InPlace belong) := by
  constructor
  · exact fun h => h.inPlace
  · intro h
    refine ⟨h, fun hgen => (h hgen).copied, fun hnot i hseed => ?_⟩
    have hgen : s.keysGenerated = false := Bool.eq_false_of_not_eq_true fun hgen => hnot (h hgen)
    unfold ecallSslLibraryInit
    simp only [hseed, hgen, Bool.not_true, Bool.not_false, Bool.false_eq_true, if_false, if_true]
    cases generateKeys lib s i.rs i.ca <;> rfl

/-- Once the keys count as generated nothing changes any more. -/
theorem alongCalls_generated (hgen : s.keysGenerated = true) (inputs : List (LibraryInit K C)) :
    AlongCalls lib (CredentialsOk belong lib) s inputs ↔ s.InPlace belong := by
  induction inputs with
  | nil =>
    rw [AlongCalls, credentialsOk_iff]
    simp [hgen]
  | cons i rest ih =>
    have hstep : ecallSslLibraryInit lib s i = some (s, false) := by
      simp [ecallSslLibraryInit, hgen]
    rw [AlongCalls, credentialsOk_iff, hstep]
    simp [hgen, ih]

/-- In every state that calls of `ecall_ssl_library_init` lead to the credentials are as they
should be if and only if the first call that can seed its random numbers puts them in place. -/
theorem credentials_iff (belong : C → C → K → Prop) (lib : TlsLibrary K C)
    (inputs : List (LibraryInit K C)) :
    AlongCalls lib (CredentialsOk belong lib) (TlsGlobals.init K C) inputs ↔
      ∀ i, inputs.find? (fun i => i.seed) = some i → Provides belong lib i := by
  have hinit : CredentialsOk belong lib (TlsGlobals.init K C) :=
    credentialsOk_iff.mpr fun hgen => by cases hgen
  induction inputs with
  | nil => simp [AlongCalls, hinit]
  | cons i rest ih =>
    rw [AlongCalls]
    cases hseed : i.seed with
    | false =>
      have hstep : ecallSslLibraryInit lib (TlsGlobals.init K C) i
          = some (TlsGlobals.init K C, false) := by
        simp [ecallSslLibraryInit, hseed]
      rw [hstep, List.find?_cons_of_neg (by simp [hseed])]
      refine Iff.trans ?_ ih
      simp [hinit]
    | true =>
      have hnot : ¬ (TlsGlobals.init K C).InPlace belong := by
        rintro ⟨caCert, cert, key, hca, -⟩
        cases hca
      rw [hinit.repeatable hnot i hseed, List.find?_cons_of_pos (by simp [hseed])]
      simp only [hinit, true_and, Option.some.injEq, forall_eq', ← generateKeys_inPlace]
      constructor
      · rintro ⟨s', write, hs, hall⟩
        obtain ⟨⟨s1, write1⟩, hgen, heq⟩ := Option.map_eq_some_iff.mp hs
        cases heq
        have hplace := (alongCalls_generated rfl rest).mp hall
        exact ⟨s1, write1, hgen, hplace⟩
      · rintro ⟨s1, write, hgen, hplace⟩
        refine ⟨{ s1 with keysGenerated := true }, write, by rw [hgen]; rfl, ?_⟩
        exact (alongCalls_generated rfl rest).mpr hplace

end Calls

/-! ## A rejected measurement -/

/-- Sealed data is not encrypted, and certificates and keys are named by a byte. Freeing a session
frees the certificate of the peer. -/
def byteLibrary : TlsLibrary UInt8 UInt8 :=
  { unsealData := some
    x509CrtParse := List.head?
    pkParseKey := fun key text => match text with
      | [] => key
      | b :: _ => .loaded b
    peerCertAfterFree := fun _ => .freed }

/-- Nothing is sealed yet, and the CA does not accept the measurement. -/
def rejectedMeasurement : LibraryInit UInt8 UInt8 :=
  ⟨true, fun _ => ⟨[], 0, false⟩, ⟨true, some 5, true, "MNOK", [], some 9⟩⟩

/-- The attempt fails and cannot be repeated: there are no certificates, but the keys count as
generated. -/
theorem rejectedMeasurement_no_certificate :
    ¬ ∀ inputs : List (LibraryInit UInt8 UInt8),
      AlongCalls byteLibrary (CredentialsOk (fun _ cert key => cert = key) byteLibrary)
        (TlsGlobals.init UInt8 UInt8) inputs := by
  intro hall
  obtain ⟨-, s', write, hs, hok⟩ := hall [rejectedMeasurement]
  have hcall : ecallSslLibraryInit byteLibrary (TlsGlobals.init UInt8 UInt8) rejectedMeasurement
      = some (⟨.null, .null, .loaded 5, true⟩, false) := by decide
  rw [hcall] at hs
  cases hs
  obtain ⟨caCert, cert, key, hca, -⟩ := hok.inPlace rfl
  cases hca

end OvsSgx
