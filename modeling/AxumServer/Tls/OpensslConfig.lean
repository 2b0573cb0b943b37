import AxumServer.Tls.Info

/-! # Building and reloading an OpenSSL configuration

The openssl crate is the parameter `Library`.  Every builder of the source sets a certificate and
a key, by its own pair of calls, and then ends in the same three calls.
-/

namespace AxumServer.TlsOpenssl

/-- A chain, leaf first, and the private key stored with it. -/
structure KeyPair (X509 PKey : Type) where
  cert : List X509
  key : PKey
  deriving DecidableEq, Repr

/-- What the loaders call of the openssl crate: `D` is an `SslAcceptorBuilder`, `A` a finished
`SslAcceptor`. Files are read by the library. -/
structure Library (Path ErrorStack X509 PKey D A : Type) where
  x509FromDer : Bytes → Except ErrorStack X509
  x509FromPem : Bytes → Except ErrorStack X509
  privateKeyFromDer : Bytes → Except ErrorStack PKey
  privateKeyFromPem : Bytes → Except ErrorStack PKey
  /-- `SslAcceptor::mozilla_modern_v5(SslMethod::tls())`. -/
  mozillaModernV5 : Except ErrorStack D
  setCertificate : D → X509 → Except ErrorStack D
  setPrivateKey : D → PKey → Except ErrorStack D
  /-- `set_certificate_file(.., SslFiletype::PEM)`. -/
  setCertificateFile : D → Path → Except ErrorStack D
  setCertificateChainFile : D → Path → Except ErrorStack D
  /-- `set_private_key_file(.., SslFiletype::PEM)`. -/
  setPrivateKeyFile : D → Path → Except ErrorStack D
  checkPrivateKey : D → Except ErrorStack Unit
  /-- `set_alpn_select_callback(alpn_select)`. -/
  setAlpnSelectCallback : D → D
  build : D → A
  /-- The pairs a builder holds. -/
  holds : D → KeyPair X509 PKey → Prop
  /-- The pairs an acceptor can present. -/
  presents : A → KeyPair X509 PKey → Prop

variable {Path ErrorStack X509 PKey D A : Type} (lib : Library Path ErrorStack X509 PKey D A)

/-- The last three calls of every builder. -/
def finish (tlsBuilder : D) : Except ErrorStack A := do
  lib.checkPrivateKey tlsBuilder
  return lib.build (lib.setAlpnSelectCallback tlsBuilder)

/-- The part the four builders share; they differ in how they set the certificate and the key. -/
def configWith (setCert setKey : D → Except ErrorStack D) : Except ErrorStack A := do
  let tlsBuilder ← lib.mozillaModernV5
  let tlsBuilder ← setCert tlsBuilder
  let tlsBuilder ← setKey tlsBuilder
  finish lib tlsBuilder

def configFromDer (cert key : Bytes) : Except ErrorStack A := do
  let cert ← lib.x509FromDer cert
  let key ← lib.privateKeyFromDer key
  configWith lib (lib.setCertificate · cert) (lib.setPrivateKey · key)

def configFromPem (cert key : Bytes) : Except ErrorStack A := do
  let cert ← lib.x509FromPem cert
  let key ← lib.privateKeyFromPem key
  configWith lib (lib.setCertificate · cert) (lib.setPrivateKey · key)

def configFromPemFile (cert key : Path) : Except ErrorStack A :=
  configWith lib (lib.setCertificateFile · cert) (lib.setPrivateKeyFile · key)

def configFromPemChainFile (chain key : Path) : Except ErrorStack A :=
  configWith lib (lib.setCertificateChainFile · chain) (lib.setPrivateKeyFile · key)

/-- `OpenSSLConfig`, the cell that all its clones share. -/
structure OpenSSLConfig (A : Type) where
  acceptor : A
  deriving DecidableEq, Repr

namespace OpenSSLConfig

def fromAcceptor (acceptor : A) : OpenSSLConfig A := ⟨acceptor⟩

def getInner (self : OpenSSLConfig A) : A := self.acceptor

def store (self : OpenSSLConfig A) (acceptor : A) : OpenSSLConfig A :=
  { self with acceptor := acceptor }

def reloadFromAcceptor (self : OpenSSLConfig A) (acceptor : A) : OpenSSLConfig A :=
  self.store acceptor

/-- What every constructor does with the acceptor it loads. -/
def construct (load : Except ErrorStack A) : Except ErrorStack (OpenSSLConfig A) := do
  let acceptor ← load
  return ⟨acceptor⟩

/-- What every reload does with the acceptor it loads. -/
def reload (self : OpenSSLConfig A) (load : Except ErrorStack A) :
    Except ErrorStack Unit × OpenSSLConfig A :=
  match load with
  | .ok acceptor => (.ok (), self.store acceptor)
  | .error e => (.error e, self)

def fromDer (cert key : Bytes) := construct (configFromDer lib cert key)

def fromPem (cert key : Bytes) := construct (configFromPem lib cert key)

def fromPemFile (cert key : Path) := construct (configFromPemFile lib cert key)

def fromPemChainFile (chain key : Path) := construct (configFromPemChainFile lib chain key)

variable (self : OpenSSLConfig A)

def reloadFromDer (cert key : Bytes) := self.reload (configFromDer lib cert key)

def reloadFromPem (cert key : Bytes) := self.reload (configFromPem lib cert key)

def reloadFromPemFile (cert key : Path) := self.reload (configFromPemFile lib cert key)

def reloadFromPemChainFile (chain key : Path) :=
  self.reload (configFromPemChainFile lib chain key)

end OpenSSLConfig

end AxumServer.TlsOpenssl
