import AxumServer.Fallible
import AxumServer.Server.Basic
import AxumServer.Tls.Info

/-! # Building and reloading a rustls configuration

Everything outside the repository (rustls, rustls-pki-types, pkcs8 and the file system) is the
parameter `Library`.  A loader may also fail to return: its loops over the sections of a PEM file
run for as many turns as the library's iterator makes them, so a loader takes the number of turns
it may spend in each loop.
-/

namespace AxumServer.TlsRustls

open Fallible

/-- `PrivateKeyDer`: which format the octets are in is part of the key. -/
inductive PrivateKeyDer where
  | pkcs1 (der : Bytes)
  | sec1 (der : Bytes)
  | pkcs8 (der : Bytes)
  deriving DecidableEq, Repr

/-- `CertifiedKey`: a chain, leaf first, and the key that signs for it. -/
structure CertifiedKey (K : Type) where
  cert : List CertificateDer
  key : K
  deriving DecidableEq, Repr

/-- What a resolver is asked with; of the client's hello it only uses the server name. -/
structure ClientHello where
  serverName : Option String
  deriving DecidableEq, Repr

/-- `ServerConfig`; `V` is the type of its `Arc<dyn ResolvesServerCert>`. -/
structure ServerConfig (V : Type) where
  certResolver : V
  alpnProtocols : List Bytes
  deriving DecidableEq, Repr

/-- The errors that are boxed by `io_other`: a text, or one of rustls's own errors. -/
inductive BoxError (R : Type) where
  | text (message : String)
  | rustls (error : R)
  deriving DecidableEq, Repr

/-- The answers of a PEM section iterator: `sections k` is what call number `k` of `next()` gives.
An error need not be the last answer. -/
abbrev Sections (P α : Type) := ℕ → Option (Except P α)

/-- What the loaders call outside the repository: `E` are errors of the file system, `P` of the
parsers, `R` of rustls; `K` are signing keys, `S` the SNI resolver while it is being filled and
`V` certificate resolvers. -/
structure Library (Path E P R K S V : Type) where
  /-- `fs_err::tokio::read`; a path read twice with different answers is two values of `Path`. -/
  read : Path → Except E Bytes
  /-- `CertificateDer::pem_slice_iter`. -/
  certSections : Bytes → Sections P CertificateDer
  /-- `PemObject::pem_slice_iter` at private keys. -/
  keySections : Bytes → Sections P PrivateKeyDer
  /-- `PrivateKeyDer::from_pem_slice`. -/
  fromPemSlice : Bytes → Except P PrivateKeyDer
  /-- `PrivateKeyDer::try_from`, with the text of its error. -/
  tryFrom : Bytes → Except String PrivateKeyDer
  /-- `Document::from_pem`: the label and the document. -/
  documentFromPem : String → Except P (String × Bytes)
  /-- `pkcs8::EncryptedPrivateKeyInfo::from_der`. -/
  encryptedFromDer : Bytes → Except P Bytes
  /-- `EncryptedPrivateKeyInfo::decrypt`, with the password second. -/
  decrypt : Bytes → Bytes → Except P Bytes
  /-- `ServerConfig::builder().with_no_client_auth().with_single_cert(..)`. -/
  withSingleCert : List CertificateDer → PrivateKeyDer → Except R (ServerConfig V)
  /-- `key_provider.load_private_key` of the crypto provider. -/
  loadPrivateKey : PrivateKeyDer → Except R K
  /-- `ResolvesServerCertUsingSni::new`. -/
  sniNew : S
  /-- `ResolvesServerCertUsingSni::add`. -/
  sniAdd : S → String → CertifiedKey K → Except R S
  /-- The filled SNI resolver as a certificate resolver. -/
  sniResolver : S → V
  /-- `ResolvesServerCert::resolve`. -/
  resolve : V → ClientHello → Option (CertifiedKey K)
  /-- The spelling of a server name under which the SNI resolver files and finds it. -/
  canonical : String → String

/-- A loader: it fails with an `io::Error`, or does not return. -/
abbrev Load (E R α : Type) := ExceptT (IoError E (BoxError R)) Option α

section Texts
variable {E R : Type}

def otherText (message : String) : IoError E (BoxError R) := ioOther (.text message)

/-- `map_err(|_| io_other(message))`. -/
def orText {P α : Type} (r : Except P α) (message : String) : Load E R α :=
  returned (r.mapError fun _ => otherText message)

def orRustls {α : Type} (r : Except R α) : Load E R α :=
  returned (r.mapError fun e => ioOther (.rustls e))

@[simp] theorem yields_orText {P α : Type} {r : Except P α} {message : String} {a : α} :
    Yields (orText r message : Load E R α) a ↔ r = .ok a := by
  simp [orText]

@[simp] theorem yields_orRustls {α : Type} {r : Except R α} {a : α} :
    Yields (orRustls r : Load E R α) a ↔ r = .ok a := by
  simp [orRustls]

end Texts

section Pem
variable {E P R : Type}

/-- `collect::<Result<Vec<_>, _>>()`: the first error ends it. -/
def collectSections {α : Type} (sections : Sections P α) :
    ℕ → ℕ → List α → Option (Except P (List α))
  | 0, _, _ => none
  | turns + 1, k, items =>
    match sections k with
    | none => some (.ok items)
    | some (.error e) => some (.error e)
    | some (.ok item) => collectSections sections turns (k + 1) (items ++ [item])

/-- `certificates_from_pem`, on the sections of the file. -/
def certificatesFromPem (sections : Sections P CertificateDer) (turns : ℕ) :
    Load E R (List CertificateDer) :=
  ExceptT.adapt (fun _ => otherText "failed to parse certificate")
    (ExceptT.mk (collectSections sections turns 0 []))

/-- The loop of `private_key_from_pem`; `keyResult` is its `key_result`. -/
def privateKeyLoop (sections : Sections P PrivateKeyDer) :
    ℕ → ℕ → Except (IoError E (BoxError R)) PrivateKeyDer →
      Option (Except (IoError E (BoxError R)) PrivateKeyDer)
  | 0, _, _ => none
  | turns + 1, k, keyResult =>
    match sections k with
    | none => some keyResult
    | some item =>
      let key := item.mapError fun _ => otherText "failed to parse PEM"
      match keyResult, key with
      | .ok _, .ok _ => some (.error (otherText
          "The private key file contains multiple keys (it must only contain one)"))
      -- An error after a key is dropped.
      | .ok _, .error _ => privateKeyLoop sections turns (k + 1) keyResult
      | .error _, _ => privateKeyLoop sections turns (k + 1) key

/-- `private_key_from_pem`, on the sections of the file. -/
def privateKeyFromPem (sections : Sections P PrivateKeyDer) (turns : ℕ) :
    Load E R PrivateKeyDer :=
  ExceptT.mk (privateKeyLoop sections turns 0
    (.error (otherText "The private key file contained no keys")))

end Pem

section Alpn
variable {V : Type}

/-- `ALPN_PROTOCOLS`: `h2` and `http/1.1`. -/
def alpnProtocols : List Bytes := ["h2".toUTF8.toList, "http/1.1".toUTF8.toList]

def setAlpn (config : ServerConfig V) : ServerConfig V :=
  { config with alpnProtocols := alpnProtocols }

@[simp] theorem setAlpn_certResolver (config : ServerConfig V) :
    (setAlpn config).certResolver = config.certResolver := rfl

end Alpn

variable {Path E P R K S V : Type} (lib : Library Path E P R K S V) (turns : ℕ)

/-- `fs_err::tokio::read(path).await?`. -/
def readFile (path : Path) : Load E R Bytes := returned ((lib.read path).mapError .raw)

def configFromCertAndKey (cert : List CertificateDer) (key : PrivateKeyDer) :
    Load E R (ServerConfig V) := do
  let config ← orRustls (lib.withSingleCert cert key)
  return setAlpn config

def configFromDer (cert : List Bytes) (key : Bytes) : Load E R (ServerConfig V) := do
  let cert := cert.map CertificateDer.mk
  let key ← returned ((lib.tryFrom key).mapError otherText)
  configFromCertAndKey lib cert key

def configFromPem (cert key : Bytes) : Load E R (ServerConfig V) := do
  let cert ← certificatesFromPem (lib.certSections cert) turns
  let key ← privateKeyFromPem (lib.keySections key) turns
  configFromCertAndKey lib cert key

def configFromPemFile (cert key : Path) : Load E R (ServerConfig V) := do
  let cert ← readFile lib cert
  let key ← readFile lib key
  configFromPem lib turns cert key

def configFromPemChainFile (cert chain : Path) : Load E R (ServerConfig V) := do
  let cert ← readFile lib cert
  let cert ← certificatesFromPem (lib.certSections cert) turns
  let key ← readFile lib chain
  let key ← orText (lib.fromPemSlice key) "could not parse pem file"
  configFromCertAndKey lib cert key

def fromUtf8 (bytes : Bytes) : Except Unit String :=
  match String.fromUTF8? ⟨bytes.toArray⟩ with
  | some s => .ok s
  | none => .error ()

def configFromPemWithPassword (cert key password : Bytes) : Load E R (ServerConfig V) := do
  let cert ← certificatesFromPem (lib.certSections cert) turns
  let pem ← orText (fromUtf8 key) "the private key file is not valid UTF-8"
  let (label, document) ← orText (lib.documentFromPem pem) "failed to parse PEM"
  if label ≠ "ENCRYPTED PRIVATE KEY" then
    throw (otherText "expected an encrypted PKCS#8 private key (ENCRYPTED PRIVATE KEY)")
  let encrypted ← orText (lib.encryptedFromDer document) "failed to parse encrypted private key"
  let decrypted ← orText (lib.decrypt encrypted password)
    "failed to decrypt private key; is the password correct?"
  configFromCertAndKey lib cert (.pkcs8 decrypted)

/-- The loop of `from_sni_pem_files` over `(server_name, certificate_path, private_key_path)`. -/
def fillSni : List (String × Path × Path) → S → Load E R S
  | [], resolver => return resolver
  | (name, certPath, keyPath) :: files, resolver => do
    let cert ← readFile lib certPath
    let key ← readFile lib keyPath
    let cert ← certificatesFromPem (lib.certSections cert) turns
    let key ← privateKeyFromPem (lib.keySections key) turns
    let signingKey ← orRustls (lib.loadPrivateKey key)
    let resolver ← orRustls (lib.sniAdd resolver name ⟨cert, signingKey⟩)
    fillSni files resolver

/-- The `ServerConfig` that `from_sni_pem_files` builds. -/
def configFromSniPemFiles (files : List (String × Path × Path)) : Load E R (ServerConfig V) := do
  let resolver ← fillSni lib turns files lib.sniNew
  return setAlpn { certResolver := lib.sniResolver resolver, alpnProtocols := [] }

/-- `RustlsConfig`, the cell that all its clones share. -/
structure RustlsConfig (V : Type) where
  inner : ServerConfig V
  deriving DecidableEq, Repr

namespace RustlsConfig

def fromConfig (config : ServerConfig V) : RustlsConfig V := ⟨config⟩

def getInner (self : RustlsConfig V) : ServerConfig V := self.inner

def store (self : RustlsConfig V) (config : ServerConfig V) : RustlsConfig V :=
  { self with inner := config }

def reloadFromConfig (self : RustlsConfig V) (config : ServerConfig V) : RustlsConfig V :=
  self.store config

/-- What every constructor does with the configuration it loads. -/
def construct (load : Load E R (ServerConfig V)) : Load E R (RustlsConfig V) := do
  let serverConfig ← load
  return ⟨serverConfig⟩

/-- What every reload does with the configuration it loads: it stores it, or returns the error
and leaves the cell alone. -/
def reload (self : RustlsConfig V) (load : Load E R (ServerConfig V)) :
    Option (Except (IoError E (BoxError R)) Unit × RustlsConfig V) :=
  load.run.map fun
    | .ok serverConfig => (.ok (), self.store serverConfig)
    | .error e => (.error e, self)

def fromDer (cert : List Bytes) (key : Bytes) : Load E R (RustlsConfig V) :=
  construct (configFromDer lib cert key)

def fromPem (cert key : Bytes) : Load E R (RustlsConfig V) :=
  construct (configFromPem lib turns cert key)

def fromPemFile (cert key : Path) : Load E R (RustlsConfig V) :=
  construct (configFromPemFile lib turns cert key)

def fromPemChainFile (chain key : Path) : Load E R (RustlsConfig V) :=
  construct (configFromPemChainFile lib turns chain key)

def fromPemWithPassword (cert key password : Bytes) : Load E R (RustlsConfig V) :=
  construct (configFromPemWithPassword lib turns cert key password)

def fromPemFileWithPassword (cert key : Path) (password : Bytes) : Load E R (RustlsConfig V) := do
  let cert ← readFile lib cert
  let key ← readFile lib key
  fromPemWithPassword lib turns cert key password

def fromSniPemFiles (files : List (String × Path × Path)) : Load E R (RustlsConfig V) :=
  construct (configFromSniPemFiles lib turns files)

variable (self : RustlsConfig V)

def reloadFromDer (cert : List Bytes) (key : Bytes) :=
  self.reload (configFromDer lib cert key)

def reloadFromPem (cert key : Bytes) :=
  self.reload (configFromPem lib turns cert key)

def reloadFromPemFile (cert key : Path) :=
  self.reload (configFromPemFile lib turns cert key)

def reloadFromPemWithPassword (cert key password : Bytes) :=
  self.reload (configFromPemWithPassword lib turns cert key password)

def reloadFromPemFileWithPassword (cert key : Path) (password : Bytes) :=
  self.reload (do
    let cert ← readFile lib cert
    let key ← readFile lib key
    configFromPemWithPassword lib turns cert key password)

end RustlsConfig

end AxumServer.TlsRustls
