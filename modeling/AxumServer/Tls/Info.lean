import Mathlib.Data.List.Forall2

/-! # The client certificates a handler is shown

After the handshake both acceptors attach a `TlsInfo` to every request of the connection.  The two
TLS libraries expose the client's certificates differently, and each backend's `tls_info` reads its
own library's view.
-/

namespace AxumServer

abbrev Bytes := List UInt8

/-- `TlsInfo`, as handlers receive it in the request extensions. -/
structure TlsInfo where
  serverName : Option String
  alpnProtocol : Option Bytes
  /-- DER-encoded certificates presented by the client, if any. -/
  peerCertificates : List Bytes
deriving DecidableEq, Repr

namespace TlsRustls

/-- `CertificateDer`: an X.509 certificate, kept as its DER octets. -/
structure CertificateDer where
  der : Bytes
deriving DecidableEq, Repr

/-- The part of rustls's `ServerConnection` that `tls_info` reads. -/
structure ServerConnection where
  serverName : Option String
  alpnProtocol : Option Bytes
  peerCertificates : Option (List CertificateDer)

/-- `tls_info` of `tls_rustls/future.rs`. -/
def tlsInfo (connection : ServerConnection) : TlsInfo where
  serverName := connection.serverName
  alpnProtocol := connection.alpnProtocol
  peerCertificates := (connection.peerCertificates.map fun certs =>
    certs.map fun cert => cert.der).getD []

/-- rustls's documented view of a full handshake: `peer_certificates()` is the whole presented
list, leaf first, and may be absent only when nothing was presented. -/
def ServerConnection.Presented (connection : ServerConnection) (presented : List Bytes) : Prop :=
  connection.peerCertificates = some (presented.map .mk) ∨
    presented = [] ∧ connection.peerCertificates = none

/-- The rustls backend reports the presented list. -/
theorem tlsInfo_peerCertificates {connection : ServerConnection} {presented : List Bytes}
    (h : connection.Presented presented) : (tlsInfo connection).peerCertificates = presented := by
  rcases h with h | ⟨rfl, h⟩
  · simp [tlsInfo, h, Function.comp_def]
  · simp [tlsInfo, h]

end TlsRustls

namespace TlsOpenssl

variable {X509 ErrorStack : Type*}

/-- The part of OpenSSL's `SslRef` that `tls_info` reads, over the library's certificates. -/
structure SslRef (X509 : Type*) where
  servername : Option String
  selectedAlpnProtocol : Option Bytes
  peerCertChain : Option (List X509)
  peerCertificate : Option X509

/-- `tls_info` of `tls_openssl/future.rs`; `toDer` is `X509::to_der`. -/
def tlsInfo (toDer : X509 → Except ErrorStack Bytes) (ssl : SslRef X509) : TlsInfo where
  serverName := ssl.servername
  alpnProtocol := ssl.selectedAlpnProtocol
  peerCertificates :=
    match ssl.peerCertChain with
    | some chain => chain.filterMap fun cert => (toDer cert).toOption
    | none => (ssl.peerCertificate.bind fun cert => (toDer cert).toOption).toList

/-- OpenSSL's documented server-side view of a full handshake: the chain lacks the leaf, which
only `peer_certificate()` returns. -/
structure SslRef.Presented (ssl : SslRef X509) (certs : List X509) : Prop where
  chain_cons : ∀ leaf rest, certs = leaf :: rest → ssl.peerCertChain = some rest
  chain_nil : certs = [] → ssl.peerCertChain = none ∨ ssl.peerCertChain = some []
  leaf : ssl.peerCertificate = certs.head?

/-- The library's certificates `certs` encode to the octets `ders` the client sent. -/
def Encodes (toDer : X509 → Except ErrorStack Bytes) (certs : List X509) (ders : List Bytes) :
    Prop :=
  List.Forall₂ (fun cert der => toDer cert = .ok der) certs ders

variable {toDer : X509 → Except ErrorStack Bytes} {certs : List X509} {ders : List Bytes}

theorem Encodes.filterMap (h : Encodes toDer certs ders) :
    (certs.filterMap fun cert => (toDer cert).toOption) = ders := by
  induction h with
  | nil => rfl
  | cons hcert _ ih => rw [List.filterMap_cons_some (by rw [hcert]; rfl), ih]

/-- The OpenSSL backend reports the presented list without its leaf. -/
theorem tlsInfo_peerCertificates {ssl : SslRef X509} (hders : Encodes toDer certs ders)
    (h : ssl.Presented certs) : (tlsInfo toDer ssl).peerCertificates = ders.tail := by
  cases hders with
  | nil =>
    have hleaf : ssl.peerCertificate = none := h.leaf
    rcases h.chain_nil rfl with hchain | hchain <;> simp [tlsInfo, hchain, hleaf]
  | cons _ hrest =>
    have hchain := h.chain_cons _ _ rfl
    simp only [tlsInfo, hchain, List.tail_cons]
    exact Encodes.filterMap hrest

end TlsOpenssl

/-- Both backends report the client's identity: the same certificates, namely the whole presented
list in order, and an empty report only for a client without certificates. -/
structure SameClientIdentity (presented : List Bytes) (openssl rustls : TlsInfo) : Prop where
  same : openssl.peerCertificates = rustls.peerCertificates
  whole : openssl.peerCertificates = presented
  empty_only : openssl.peerCertificates = [] → presented = []

section ClientIdentity

open TlsRustls TlsOpenssl

variable {X509 ErrorStack : Type*} {toDer : X509 → Except ErrorStack Bytes}

/-- The backends agree on a client exactly when it presented no certificate: the OpenSSL report
always lacks the leaf. -/
theorem sameClientIdentity_iff {presented : List Bytes} {certs : List X509}
    {connection : ServerConnection} {ssl : SslRef X509} (hders : Encodes toDer certs presented)
    (hrustls : connection.Presented presented) (hopenssl : ssl.Presented certs) :
    SameClientIdentity presented (TlsOpenssl.tlsInfo toDer ssl) (TlsRustls.tlsInfo connection) ↔
      presented = [] := by
  have ho := TlsOpenssl.tlsInfo_peerCertificates hders hopenssl
  have hr := TlsRustls.tlsInfo_peerCertificates hrustls
  constructor
  · intro h
    have htail : presented.tail = presented := ho.symm.trans h.whole
    cases presented with
    | nil => rfl
    | cons leaf rest => exact absurd htail (List.cons_ne_self leaf rest).symm
  · rintro rfl
    exact ⟨ho.trans hr.symm, ho, fun _ => rfl⟩

/-- A client that presents the certificates `ders` as rustls shows it. -/
def rustlsClient (ders : List Bytes) : ServerConnection :=
  { serverName := none, alpnProtocol := none, peerCertificates := some (ders.map .mk) }

/-- The same client as OpenSSL shows it, its certificates standing for their own encoding. -/
def opensslClient (ders : List Bytes) : SslRef Bytes :=
  { servername := none, selectedAlpnProtocol := none,
    peerCertChain := some ders.tail, peerCertificate := ders.head? }

theorem opensslClient_presented (ders : List Bytes) : (opensslClient ders).Presented ders where
  chain_cons := by rintro leaf rest rfl; rfl
  chain_nil := by rintro rfl; exact .inr rfl
  leaf := rfl

theorem encodes_self (ders : List Bytes) : Encodes (Except.ok (ε := Unit)) ders ders :=
  List.forall₂_same.mpr fun _ _ => rfl

theorem sameClientIdentity_anonymous :
    SameClientIdentity [] (TlsOpenssl.tlsInfo (Except.ok (ε := Unit)) (opensslClient []))
      (TlsRustls.tlsInfo (rustlsClient [])) :=
  (sameClientIdentity_iff (encodes_self []) (.inl rfl) (opensslClient_presented [])).mpr rfl

/-- A client that sends its leaf alone is anonymous to the handlers behind OpenSSL. -/
theorem leaf_hidden :
    Encodes (Except.ok (ε := Unit)) [[48, 3]] [[48, 3]] ∧
    (rustlsClient [[48, 3]]).Presented [[48, 3]] ∧
    (opensslClient [[48, 3]]).Presented [[48, 3]] ∧
    (TlsOpenssl.tlsInfo (Except.ok (ε := Unit)) (opensslClient [[48, 3]])).peerCertificates = [] ∧
    ¬ SameClientIdentity [[48, 3]]
      (TlsOpenssl.tlsInfo (Except.ok (ε := Unit)) (opensslClient [[48, 3]]))
      (TlsRustls.tlsInfo (rustlsClient [[48, 3]])) := by
  refine ⟨encodes_self _, .inl rfl, opensslClient_presented _, rfl, fun h => ?_⟩
  exact absurd (h.empty_only rfl) (List.cons_ne_nil _ _)

end ClientIdentity

end AxumServer
