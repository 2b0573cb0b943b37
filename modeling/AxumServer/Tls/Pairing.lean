import AxumServer.Registry
import AxumServer.Tls.RustlsConfig
import AxumServer.Tls.OpensslConfig

/-! # Which keys a loaded configuration signs with

A configuration presents a chain together with the key stored with it.  On the routes through
`with_single_cert` and on every OpenSSL route a library call compares the two; the SNI route
registers each pair without a comparison.
-/

namespace AxumServer

open Fallible Registry

namespace TlsRustls

variable {Path E P R K S V : Type}

/-- The key stored with a chain belongs to the chain's first certificate. -/
def CertifiedKey.Paired (Matches : CertificateDer → K → Prop) (ck : CertifiedKey K) : Prop :=
  ∃ leaf, ck.cert.head? = some leaf ∧ Matches leaf ck.key

/-- The documented behaviour of rustls that the loaders rely on. -/
structure Library.Lawful (lib : Library Path E P R K S V) (Matches : CertificateDer → K → Prop)
    (ValidFor : String → List CertificateDer → Prop) : Prop where
  /-- A single certificate is presented whatever the client asks for. -/
  single_resolve : ∀ certs key config, lib.withSingleCert certs key = .ok config →
    ∃ signingKey, lib.loadPrivateKey key = .ok signingKey ∧
      ∀ hello, lib.resolve config.certResolver hello = some ⟨certs, signingKey⟩
  single_mismatch : ∀ certs key signingKey, lib.loadPrivateKey key = .ok signingKey →
    ¬ CertifiedKey.Paired Matches ⟨certs, signingKey⟩ →
      ∃ e, lib.withSingleCert certs key = .error e
  sniNew_resolve : ∀ hello, lib.resolve (lib.sniResolver lib.sniNew) hello = none
  /-- `add` checks the chain against the name, and nothing else. -/
  sniAdd_accepts : ∀ resolver name ck,
    (∃ resolver', lib.sniAdd resolver name ck = .ok resolver') ↔ ValidFor name ck.cert
  sniAdd_resolve : ∀ resolver name ck resolver', lib.sniAdd resolver name ck = .ok resolver' →
    ∀ hello, lib.resolve (lib.sniResolver resolver') hello =
      if hello.serverName.map lib.canonical = some (lib.canonical name) then some ck
      else lib.resolve (lib.sniResolver resolver) hello

/-- The constructors and reloads that take certificate and key material. -/
inductive Call (Path V : Type) where
  | fromDer (cert : List Bytes) (key : Bytes)
  | fromPem (cert key : Bytes)
  | fromPemFile (cert key : Path)
  | fromPemChainFile (chain key : Path)
  | fromPemWithPassword (cert key password : Bytes)
  | fromPemFileWithPassword (cert key : Path) (password : Bytes)
  | fromSniPemFiles (files : List (String × Path × Path))
  | reloadFromDer (self : RustlsConfig V) (cert : List Bytes) (key : Bytes)
  | reloadFromPem (self : RustlsConfig V) (cert key : Bytes)
  | reloadFromPemFile (self : RustlsConfig V) (cert key : Path)
  | reloadFromPemWithPassword (self : RustlsConfig V) (cert key password : Bytes)
  | reloadFromPemFileWithPassword (self : RustlsConfig V) (cert key : Path) (password : Bytes)

variable (lib : Library Path E P R K S V) (turns : ℕ)

namespace Call

/-- The call returns `Ok` and the cell it made or was called on then is `config`. -/
def Loads (config : RustlsConfig V) : Call Path V → Prop
  | fromDer cert key => Yields (RustlsConfig.fromDer lib cert key) config
  | fromPem cert key => Yields (RustlsConfig.fromPem lib turns cert key) config
  | fromPemFile cert key => Yields (RustlsConfig.fromPemFile lib turns cert key) config
  | fromPemChainFile chain key => Yields (RustlsConfig.fromPemChainFile lib turns chain key) config
  | fromPemWithPassword cert key password =>
      Yields (RustlsConfig.fromPemWithPassword lib turns cert key password) config
  | fromPemFileWithPassword cert key password =>
      Yields (RustlsConfig.fromPemFileWithPassword lib turns cert key password) config
  | fromSniPemFiles files => Yields (RustlsConfig.fromSniPemFiles lib turns files) config
  | reloadFromDer self cert key => self.reloadFromDer lib cert key = some (.ok (), config)
  | reloadFromPem self cert key => self.reloadFromPem lib turns cert key = some (.ok (), config)
  | reloadFromPemFile self cert key =>
      self.reloadFromPemFile lib turns cert key = some (.ok (), config)
  | reloadFromPemWithPassword self cert key password =>
      self.reloadFromPemWithPassword lib turns cert key password = some (.ok (), config)
  | reloadFromPemFileWithPassword self cert key password =>
      self.reloadFromPemFileWithPassword lib turns cert key password = some (.ok (), config)

/-- Every pair that a configuration loaded by the call can present is matched. -/
def KeysMatch (Matches : CertificateDer → K → Prop) (call : Call Path V) : Prop :=
  ∀ turns config, call.Loads lib turns config →
    ∀ hello ck, lib.resolve config.inner.certResolver hello = some ck → ck.Paired Matches

end Call

section Cell
variable {lib turns} {load : Load E R (ServerConfig V)} {self config : RustlsConfig V}

@[simp] theorem yields_construct :
    Yields (RustlsConfig.construct load) config ↔ Yields load config.inner := by
  simp only [RustlsConfig.construct, yields_bind, yields_pure]
  constructor
  · rintro ⟨serverConfig, h, rfl⟩
    exact h
  · intro h
    exact ⟨config.inner, h, rfl⟩

@[simp] theorem reload_eq_ok :
    self.reload load = some (.ok (), config) ↔ Yields load config.inner := by
  simp only [RustlsConfig.reload, Yields, RustlsConfig.store]
  rcases load.run with _ | (e | serverConfig)
  · simp
  · simp
  · cases config
    simp

end Cell

section SingleCert

/-- The configuration was made by `with_single_cert`. -/
def ViaSingleCert (config : ServerConfig V) : Prop :=
  ∃ certs key config', lib.withSingleCert certs key = .ok config' ∧ config = setAlpn config'

variable {lib turns} {config : ServerConfig V}

theorem configFromCertAndKey_via {certs : List CertificateDer} {key : PrivateKeyDer}
    (h : Yields (configFromCertAndKey lib certs key) config) : ViaSingleCert lib config := by
  simp only [configFromCertAndKey, yields_bind, yields_orRustls, yields_pure] at h
  obtain ⟨config', h, rfl⟩ := h
  exact ⟨certs, key, config', h, rfl⟩

theorem configFromDer_via {cert : List Bytes} {key : Bytes}
    (h : Yields (configFromDer lib cert key) config) : ViaSingleCert lib config := by
  obtain ⟨key', -, h⟩ := yields_bind.mp h
  exact configFromCertAndKey_via h

theorem configFromPem_via {cert key : Bytes}
    (h : Yields (configFromPem lib turns cert key) config) : ViaSingleCert lib config := by
  obtain ⟨cert', -, h⟩ := yields_bind.mp h
  obtain ⟨key', -, h⟩ := yields_bind.mp h
  exact configFromCertAndKey_via h

theorem configFromPemFile_via {cert key : Path}
    (h : Yields (configFromPemFile lib turns cert key) config) : ViaSingleCert lib config := by
  obtain ⟨cert', -, h⟩ := yields_bind.mp h
  obtain ⟨key', -, h⟩ := yields_bind.mp h
  exact configFromPem_via h

theorem configFromPemChainFile_via {chain key : Path}
    (h : Yields (configFromPemChainFile lib turns chain key) config) :
    ViaSingleCert lib config := by
  obtain ⟨bytes, -, h⟩ := yields_bind.mp h
  obtain ⟨cert', -, h⟩ := yields_bind.mp h
  obtain ⟨bytes', -, h⟩ := yields_bind.mp h
  obtain ⟨key', -, h⟩ := yields_bind.mp h
  exact configFromCertAndKey_via h

theorem configFromPemWithPassword_via {cert key password : Bytes}
    (h : Yields (configFromPemWithPassword lib turns cert key password) config) :
    ViaSingleCert lib config := by
  obtain ⟨cert', -, h⟩ := yields_bind.mp h
  obtain ⟨pem, -, h⟩ := yields_bind.mp h
  obtain ⟨⟨label, document⟩, -, h⟩ := yields_bind.mp h
  simp only at h
  split_ifs at h with hlabel
  · exact absurd h (by simp)
  · obtain ⟨encrypted, -, h⟩ := yields_bind.mp h
    obtain ⟨decrypted, -, h⟩ := yields_bind.mp h
    exact configFromCertAndKey_via h

variable {Matches : CertificateDer → K → Prop} {ValidFor : String → List CertificateDer → Prop}

/-- `with_single_cert` lets no mismatched pair through. -/
theorem ViaSingleCert.paired (law : lib.Lawful Matches ValidFor) (h : ViaSingleCert lib config)
    {hello : ClientHello} {ck : CertifiedKey K}
    (hck : lib.resolve config.certResolver hello = some ck) : ck.Paired Matches := by
  obtain ⟨certs, key, config', hsingle, rfl⟩ := h
  obtain ⟨signingKey, hkey, hresolve⟩ := law.single_resolve certs key config' hsingle
  rw [setAlpn_certResolver, hresolve, Option.some.injEq] at hck
  subst hck
  by_contra hmismatch
  obtain ⟨e, herror⟩ := law.single_mismatch certs key signingKey hkey hmismatch
  rw [hsingle] at herror
  cases herror

end SingleCert

section Sni

/-- What one entry of `from_sni_pem_files` loads before it is registered. -/
def sniEntry (file : String × Path × Path) : Load E R (CertifiedKey K) := do
  let cert ← readFile lib file.2.1
  let key ← readFile lib file.2.2
  let cert ← certificatesFromPem (lib.certSections cert) turns
  let key ← privateKeyFromPem (lib.keySections key) turns
  let signingKey ← orRustls (lib.loadPrivateKey key)
  return ⟨cert, signingKey⟩

/-- The server name an entry is registered under, as a client's request for it is compared. -/
def sniName (file : String × Path × Path) : Option String := some (lib.canonical file.1)

/-- Both files of the entry load, and its chain is valid for its name. -/
def SniAccepts (ValidFor : String → List CertificateDer → Prop) (file : String × Path × Path)
    (ck : CertifiedKey K) : Prop :=
  Yields (sniEntry lib turns file) ck ∧ ValidFor file.1 ck.cert

/-- The pair of the last entry under each name is matched, whenever all entries are accepted. -/
def SniPaired (Matches : CertificateDer → K → Prop)
    (ValidFor : String → List CertificateDer → Prop) (files : List (String × Path × Path)) :
    Prop :=
  ∀ turns, (∀ file ∈ files, ∃ ck, SniAccepts lib turns ValidFor file ck) →
    ∀ file ck, LastFor (sniName lib) files file → Yields (sniEntry lib turns file) ck →
      ck.Paired Matches

variable {lib turns} {Matches : CertificateDer → K → Prop}
  {ValidFor : String → List CertificateDer → Prop} {files : List (String × Path × Path)}
  {file : String × Path × Path} {resolver resolver' : S}

theorem yields_fillSni_cons :
    Yields (fillSni lib turns (file :: files) resolver) resolver' ↔
      ∃ ck, Yields (sniEntry lib turns file) ck ∧
        ∃ next, lib.sniAdd resolver file.1 ck = .ok next ∧
          Yields (fillSni lib turns files next) resolver' := by
  obtain ⟨name, certPath, keyPath⟩ := file
  simp only [fillSni, sniEntry, yields_bind, yields_orRustls, yields_pure]
  constructor
  · rintro ⟨cert, h₁, key, h₂, certs, h₃, key', h₄, signingKey, h₅, next, h₆, h₇⟩
    exact ⟨_, ⟨cert, h₁, key, h₂, certs, h₃, key', h₄, signingKey, h₅, rfl⟩, next, h₆, h₇⟩
  · rintro ⟨_, ⟨cert, h₁, key, h₂, certs, h₃, key', h₄, signingKey, h₅, rfl⟩, next, h₆, h₇⟩
    exact ⟨cert, h₁, key, h₂, certs, h₃, key', h₄, signingKey, h₅, next, h₆, h₇⟩

/-- The filled resolver answers a client with the last entry of the name it asks for. -/
theorem fillSni_resolve (law : lib.Lawful Matches ValidFor)
    (h : Yields (fillSni lib turns files resolver) resolver') :
    ∃ entries : List (Option String × CertifiedKey K),
      List.Forall₂ (fun file entry => entry.1 = sniName lib file ∧
        SniAccepts lib turns ValidFor file entry.2) files entries ∧
      ∀ hello, lib.resolve (lib.sniResolver resolver') hello =
        (registered entries (hello.serverName.map lib.canonical)).or
          (lib.resolve (lib.sniResolver resolver) hello) := by
  induction files generalizing resolver with
  | nil =>
    obtain rfl := yields_pure.mp h
    exact ⟨[], .nil, fun hello => rfl⟩
  | cons file files ih =>
    obtain ⟨ck, hck, next, hadd, hrest⟩ := yields_fillSni_cons.mp h
    obtain ⟨entries, hentries, hresolve⟩ := ih hrest
    have hvalid := (law.sniAdd_accepts resolver file.1 ck).mp ⟨next, hadd⟩
    refine ⟨(sniName lib file, ck) :: entries, .cons ⟨rfl, hck, hvalid⟩ hentries, fun hello => ?_⟩
    rw [hresolve, law.sniAdd_resolve _ _ _ _ hadd]
    simp only [registered, Option.orElse_eq_orElse, Option.orElse_eq_or, Option.or_assoc]
    congr 1
    by_cases hname : sniName lib file = hello.serverName.map lib.canonical
    · have hasked : hello.serverName.map lib.canonical = some (lib.canonical file.1) := hname.symm
      rw [if_pos hname, if_pos hasked, Option.some_or]
    · have hother : hello.serverName.map lib.canonical ≠ some (lib.canonical file.1) :=
        Ne.symm hname
      rw [if_neg hname, if_neg hother, Option.none_or]

theorem fillSni_returns (resolver : S) (law : lib.Lawful Matches ValidFor)
    (h : ∀ file ∈ files, ∃ ck, SniAccepts lib turns ValidFor file ck) :
    ∃ resolver', Yields (fillSni lib turns files resolver) resolver' := by
  induction files generalizing resolver with
  | nil => exact ⟨resolver, yields_pure.mpr rfl⟩
  | cons file files ih =>
    obtain ⟨ck, hck, hvalid⟩ := h file List.mem_cons_self
    obtain ⟨next, hadd⟩ := (law.sniAdd_accepts resolver file.1 ck).mpr hvalid
    obtain ⟨resolver', hrest⟩ := ih next fun f hf => h f (List.mem_cons_of_mem _ hf)
    exact ⟨resolver', yields_fillSni_cons.mpr ⟨ck, hck, next, hadd, hrest⟩⟩

variable {config : ServerConfig V}

theorem configFromSniPemFiles_paired (law : lib.Lawful Matches ValidFor)
    (hfiles : SniPaired lib Matches ValidFor files)
    (h : Yields (configFromSniPemFiles lib turns files) config) {hello : ClientHello}
    {ck : CertifiedKey K} (hck : lib.resolve config.certResolver hello = some ck) :
    ck.Paired Matches := by
  obtain ⟨resolver, hfill, h⟩ := yields_bind.mp h
  obtain rfl := yields_pure.mp h
  obtain ⟨entries, hentries, hresolve⟩ := fillSni_resolve law hfill
  rw [setAlpn_certResolver, hresolve, law.sniNew_resolve, Option.or_none] at hck
  obtain ⟨file, ⟨-, hentry, -⟩, hlast⟩ :=
    (registered_eq_some.mp hck).transport hentries.flip fun _ _ he => he.1
  refine hfiles turns (fun f hf => ?_) file ck hlast hentry
  obtain ⟨entry, -, -, hentry⟩ := exists_mem_of_forall₂ hentries.flip hf
  exact ⟨entry.2, hentry⟩

theorem sniPaired_of_configs (law : lib.Lawful Matches ValidFor)
    (h : ∀ turns config, Yields (configFromSniPemFiles lib turns files) config →
      ∀ hello ck, lib.resolve config.certResolver hello = some ck → ck.Paired Matches) :
    SniPaired lib Matches ValidFor files := by
  intro turns haccept file ck hlast hck
  obtain ⟨resolver, hfill⟩ := fillSni_returns lib.sniNew law haccept
  obtain ⟨entries, hentries, hresolve⟩ := fillSni_resolve law hfill
  obtain ⟨⟨name, ck'⟩, ⟨hname, hck', -⟩, hlast'⟩ :=
    hlast.transport hentries fun _ _ he => he.1.symm
  obtain rfl := hck.unique hck'
  -- A client that asks for the entry's own name is shown this pair.
  refine h turns _ (yields_bind.mpr ⟨resolver, hfill, yields_pure.mpr rfl⟩) ⟨some file.1⟩ ck ?_
  rw [setAlpn_certResolver, hresolve, law.sniNew_resolve, Option.or_none]
  obtain rfl : name = (some file.1).map lib.canonical := hname
  exact registered_eq_some.mpr hlast'

end Sni

/-- Where a call stores only matched pairs. Without an SNI loop that is everywhere. -/
def Call.Paired (Matches : CertificateDer → K → Prop)
    (ValidFor : String → List CertificateDer → Prop) : Call Path V → Prop
  | .fromSniPemFiles files => SniPaired lib Matches ValidFor files
  | _ => True

section Calls
variable {lib turns} {Matches : CertificateDer → K → Prop}
  {ValidFor : String → List CertificateDer → Prop} {config : RustlsConfig V}

theorem Call.Loads.via_or_sni {call : Call Path V} (h : call.Loads lib turns config) :
    ViaSingleCert lib config.inner ∨ ∃ files, call = .fromSniPemFiles files ∧
      Yields (configFromSniPemFiles lib turns files) config.inner := by
  cases call with
  | fromDer => exact .inl (configFromDer_via (yields_construct.mp h))
  | fromPem => exact .inl (configFromPem_via (yields_construct.mp h))
  | fromPemFile => exact .inl (configFromPemFile_via (yields_construct.mp h))
  | fromPemChainFile => exact .inl (configFromPemChainFile_via (yields_construct.mp h))
  | fromPemWithPassword => exact .inl (configFromPemWithPassword_via (yields_construct.mp h))
  | fromPemFileWithPassword =>
    obtain ⟨cert, -, h⟩ := yields_bind.mp h
    obtain ⟨key, -, h⟩ := yields_bind.mp h
    exact .inl (configFromPemWithPassword_via (yields_construct.mp h))
  | fromSniPemFiles files => exact .inr ⟨files, rfl, yields_construct.mp h⟩
  | reloadFromDer => exact .inl (configFromDer_via (reload_eq_ok.mp h))
  | reloadFromPem => exact .inl (configFromPem_via (reload_eq_ok.mp h))
  | reloadFromPemFile => exact .inl (configFromPemFile_via (reload_eq_ok.mp h))
  | reloadFromPemWithPassword => exact .inl (configFromPemWithPassword_via (reload_eq_ok.mp h))
  | reloadFromPemFileWithPassword =>
    obtain ⟨cert, -, h⟩ := yields_bind.mp (reload_eq_ok.mp h)
    obtain ⟨key, -, h⟩ := yields_bind.mp h
    exact .inl (configFromPemWithPassword_via h)

theorem Call.keysMatch_iff (law : lib.Lawful Matches ValidFor) (call : Call Path V) :
    call.KeysMatch lib Matches ↔ call.Paired lib Matches ValidFor := by
  constructor
  · intro h
    cases call with
    | fromSniPemFiles files =>
      refine sniPaired_of_configs law fun turns config hconfig hello ck hck => ?_
      exact h turns ⟨config⟩ (yields_construct.mpr hconfig) hello ck hck
    | _ => trivial
  · intro h turns config hload hello ck hck
    rcases hload.via_or_sni with hsingle | ⟨files, rfl, hsni⟩
    · exact hsingle.paired law hck
    · exact configFromSniPemFiles_paired law h hsni hck

end Calls
end TlsRustls

namespace TlsOpenssl

variable {Path ErrorStack X509 PKey D A : Type}

def KeyPair.Paired (Matches : X509 → PKey → Prop) (pair : KeyPair X509 PKey) : Prop :=
  ∃ leaf, pair.cert.head? = some leaf ∧ Matches leaf pair.key

/-- The documented behaviour of OpenSSL that the loaders rely on. -/
structure Library.Lawful (lib : Library Path ErrorStack X509 PKey D A)
    (Matches : X509 → PKey → Prop) : Prop where
  check_mismatch : ∀ builder pair, lib.holds builder pair → ¬ pair.Paired Matches →
    ∃ e, lib.checkPrivateKey builder = .error e
  alpn_holds : ∀ builder pair,
    lib.holds (lib.setAlpnSelectCallback builder) pair → lib.holds builder pair
  build_presents : ∀ builder pair, lib.presents (lib.build builder) pair → lib.holds builder pair

inductive Call (Path A : Type) where
  | fromDer (cert key : Bytes)
  | fromPem (cert key : Bytes)
  | fromPemFile (cert key : Path)
  | fromPemChainFile (chain key : Path)
  | reloadFromDer (self : OpenSSLConfig A) (cert key : Bytes)
  | reloadFromPem (self : OpenSSLConfig A) (cert key : Bytes)
  | reloadFromPemFile (self : OpenSSLConfig A) (cert key : Path)
  | reloadFromPemChainFile (self : OpenSSLConfig A) (chain key : Path)

variable (lib : Library Path ErrorStack X509 PKey D A)

namespace Call

def Loads (config : OpenSSLConfig A) : Call Path A → Prop
  | fromDer cert key => OpenSSLConfig.fromDer lib cert key = .ok config
  | fromPem cert key => OpenSSLConfig.fromPem lib cert key = .ok config
  | fromPemFile cert key => OpenSSLConfig.fromPemFile lib cert key = .ok config
  | fromPemChainFile chain key => OpenSSLConfig.fromPemChainFile lib chain key = .ok config
  | reloadFromDer self cert key => self.reloadFromDer lib cert key = (.ok (), config)
  | reloadFromPem self cert key => self.reloadFromPem lib cert key = (.ok (), config)
  | reloadFromPemFile self cert key => self.reloadFromPemFile lib cert key = (.ok (), config)
  | reloadFromPemChainFile self chain key =>
      self.reloadFromPemChainFile lib chain key = (.ok (), config)

def KeysMatch (Matches : X509 → PKey → Prop) (call : Call Path A) : Prop :=
  ∀ config, call.Loads lib config → ∀ pair, lib.presents config.acceptor pair → pair.Paired Matches

end Call

variable {lib} {load : Except ErrorStack A} {self config : OpenSSLConfig A} {acceptor : A}
  {Matches : X509 → PKey → Prop}

theorem construct_eq_ok :
    OpenSSLConfig.construct load = .ok config ↔ load = .ok config.acceptor := by
  cases load <;> cases config <;> simp [OpenSSLConfig.construct]

theorem reload_eq_ok : self.reload load = (.ok (), config) ↔ load = .ok config.acceptor := by
  cases load <;> cases config <;> simp [OpenSSLConfig.reload, OpenSSLConfig.store]

def Checked (lib : Library Path ErrorStack X509 PKey D A) (acceptor : A) : Prop :=
  ∃ builder, lib.checkPrivateKey builder = .ok () ∧
    acceptor = lib.build (lib.setAlpnSelectCallback builder)

theorem configWith_checked {setCert setKey : D → Except ErrorStack D}
    (h : configWith lib setCert setKey = .ok acceptor) : Checked lib acceptor := by
  obtain ⟨_, -, h⟩ := bind_eq_ok.mp h
  obtain ⟨_, -, h⟩ := bind_eq_ok.mp h
  obtain ⟨builder, -, h⟩ := bind_eq_ok.mp h
  obtain ⟨⟨⟩, hcheck, hbuild⟩ := bind_eq_ok.mp h
  exact ⟨builder, hcheck, (Except.ok.inj hbuild).symm⟩

theorem Call.Loads.checked {call : Call Path A} (h : call.Loads lib config) :
    Checked lib config.acceptor := by
  cases call with
  | fromDer | fromPem =>
    obtain ⟨_, -, h⟩ := bind_eq_ok.mp (construct_eq_ok.mp h)
    obtain ⟨_, -, h⟩ := bind_eq_ok.mp h
    exact configWith_checked h
  | fromPemFile | fromPemChainFile => exact configWith_checked (construct_eq_ok.mp h)
  | reloadFromDer | reloadFromPem =>
    obtain ⟨_, -, h⟩ := bind_eq_ok.mp (reload_eq_ok.mp h)
    obtain ⟨_, -, h⟩ := bind_eq_ok.mp h
    exact configWith_checked h
  | reloadFromPemFile | reloadFromPemChainFile => exact configWith_checked (reload_eq_ok.mp h)

/-- Every OpenSSL route checks the key it stores. -/
theorem Call.keysMatch (law : lib.Lawful Matches) (call : Call Path A) :
    call.KeysMatch lib Matches := by
  intro config hload pair hpair
  obtain ⟨builder, hcheck, hbuild⟩ := hload.checked
  rw [hbuild] at hpair
  have hholds := law.alpn_holds _ _ (law.build_presents _ _ hpair)
  by_contra hmismatch
  obtain ⟨e, herror⟩ := law.check_mismatch builder pair hholds hmismatch
  rw [hcheck] at herror
  cases herror

end TlsOpenssl

section Backends

open TlsRustls

inductive TlsCall (Path V A : Type) where
  | rustls (call : TlsRustls.Call Path V)
  | openssl (call : TlsOpenssl.Call Path A)

variable {Path E P R K S V ErrorStack X509 PKey D A : Type}

/-- No configuration loaded by the call pairs a certificate with a foreign key. -/
def TlsCall.KeysMatch (rustlsLib : TlsRustls.Library Path E P R K S V)
    (opensslLib : TlsOpenssl.Library Path ErrorStack X509 PKey D A)
    (CertKey : CertificateDer → K → Prop) (X509Key : X509 → PKey → Prop) :
    TlsCall Path V A → Prop
  | .rustls call => call.KeysMatch rustlsLib CertKey
  | .openssl call => call.KeysMatch opensslLib X509Key

/-- What the material of the call has to meet for that. -/
def TlsCall.Paired (rustlsLib : TlsRustls.Library Path E P R K S V)
    (CertKey : CertificateDer → K → Prop) (ValidFor : String → List CertificateDer → Prop) :
    TlsCall Path V A → Prop
  | .rustls call => call.Paired rustlsLib CertKey ValidFor
  | .openssl _ => True

/-- A call never pairs a certificate with a foreign key exactly when it is not
`from_sni_pem_files`, or one of its entries is refused, or the last entry under each server name is
a matched pair. -/
theorem keysMatch_iff_paired {rustlsLib : TlsRustls.Library Path E P R K S V}
    {opensslLib : TlsOpenssl.Library Path ErrorStack X509 PKey D A}
    {CertKey : CertificateDer → K → Prop} {ValidFor : String → List CertificateDer → Prop}
    {X509Key : X509 → PKey → Prop} (hrustls : rustlsLib.Lawful CertKey ValidFor)
    (hopenssl : opensslLib.Lawful X509Key) (call : TlsCall Path V A) :
    call.KeysMatch rustlsLib opensslLib CertKey X509Key ↔
      call.Paired rustlsLib CertKey ValidFor := by
  cases call with
  | rustls call => exact TlsRustls.Call.keysMatch_iff hrustls call
  | openssl call => exact iff_of_true (TlsOpenssl.Call.keysMatch hopenssl call) trivial

end Backends

section Demo

open TlsRustls

/-- A small rustls: a file is its content, a certificate file holds one certificate, a key belongs
to the certificate with the same octets. -/
def demoRustls : TlsRustls.Library Bytes Unit Unit Unit Bytes
    (ClientHello → Option (CertifiedKey Bytes)) (ClientHello → Option (CertifiedKey Bytes)) where
  read path := .ok path
  certSections file k := if k = 0 then some (.ok ⟨file⟩) else none
  keySections file k := if k = 0 then some (.ok (.pkcs8 file)) else none
  fromPemSlice file := .ok (.pkcs8 file)
  tryFrom key := .ok (.pkcs8 key)
  documentFromPem _ := .error ()
  encryptedFromDer _ := .error ()
  decrypt _ _ := .error ()
  withSingleCert certs key :=
    match certs, key with
    | leaf :: _, .pkcs8 der =>
      if leaf.der = der then .ok ⟨fun _ => some ⟨certs, der⟩, []⟩ else .error ()
    | _, _ => .error ()
  loadPrivateKey
    | .pkcs8 der => .ok der
    | _ => .error ()
  sniNew _ := none
  sniAdd resolver name ck :=
    if ck.cert = [] then .error ()
    else .ok fun hello => if hello.serverName = some name then some ck else resolver hello
  sniResolver resolver := resolver
  resolve resolver hello := resolver hello
  canonical name := name

theorem demoRustls_lawful :
    demoRustls.Lawful (fun leaf key => leaf.der = key) fun _ certs => certs ≠ [] where
  single_resolve := by
    intro certs key config h
    rcases certs with _ | ⟨leaf, certs⟩
    · exact absurd h (by simp [demoRustls])
    · cases key with
      | pkcs8 der =>
        simp only [demoRustls] at h
        split_ifs at h
        cases h
        exact ⟨der, rfl, fun hello => rfl⟩
      | _ => exact absurd h (by simp [demoRustls])
  single_mismatch := by
    intro certs key signingKey hkey hmismatch
    cases key with
    | pkcs8 der =>
      obtain rfl : der = signingKey := Except.ok.inj hkey
      rcases certs with _ | ⟨leaf, certs⟩
      · exact ⟨(), rfl⟩
      · refine ⟨(), if_neg fun hleaf => hmismatch ⟨leaf, rfl, hleaf⟩⟩
    | _ => cases hkey
  sniNew_resolve _ := rfl
  sniAdd_accepts resolver name ck := by
    by_cases h : ck.cert = [] <;> simp [demoRustls, h]
  sniAdd_resolve := by
    intro resolver name ck resolver' h hello
    simp only [demoRustls] at h ⊢
    split_ifs at h
    cases h
    simp

def demoOpenssl : TlsOpenssl.Library Bytes Unit Bytes Bytes (Bytes × Bytes) (Bytes × Bytes) where
  x509FromDer cert := .ok cert
  x509FromPem cert := .ok cert
  privateKeyFromDer key := .ok key
  privateKeyFromPem key := .ok key
  mozillaModernV5 := .ok ([], [])
  setCertificate builder cert := .ok (cert, builder.2)
  setPrivateKey builder key := .ok (builder.1, key)
  setCertificateFile builder cert := .ok (cert, builder.2)
  setCertificateChainFile builder chain := .ok (chain, builder.2)
  setPrivateKeyFile builder key := .ok (builder.1, key)
  checkPrivateKey builder := if builder.1 = builder.2 then .ok () else .error ()
  setAlpnSelectCallback builder := builder
  build builder := builder
  holds builder pair := pair = ⟨[builder.1], builder.2⟩
  presents acceptor pair := pair = ⟨[acceptor.1], acceptor.2⟩

theorem demoOpenssl_lawful : demoOpenssl.Lawful (· = ·) where
  check_mismatch := by
    rintro builder _ rfl hmismatch
    exact ⟨(), if_neg fun h => hmismatch ⟨builder.1, rfl, h⟩⟩
  alpn_holds _ _ h := h
  build_presents _ _ h := h

theorem sniEntry_demo {turns : ℕ} {name : String} {cert key : Bytes} {ck : CertifiedKey Bytes}
    (h : Yields (sniEntry demoRustls turns (name, cert, key)) ck) : ck = ⟨[⟨cert⟩], key⟩ := by
  match turns with
  | 0 => cases h
  | 1 => cases h
  | turns + 2 =>
    have h' : Yields (sniEntry demoRustls (turns + 2) (name, cert, key)) ⟨[⟨cert⟩], key⟩ := rfl
    exact h.unique h'

theorem keysMatch_sni_matched :
    (TlsCall.rustls (.fromSniPemFiles [("a.test", [1], [1])])).KeysMatch demoRustls demoOpenssl
      (fun leaf key => leaf.der = key) (· = ·) := by
  refine (keysMatch_iff_paired demoRustls_lawful demoOpenssl_lawful _).mpr ?_
  rintro turns - file ck ⟨pre, post, hfiles, -⟩ hck
  have hfile : file ∈ [("a.test", [1], [1])] := hfiles ▸ by simp
  obtain rfl := List.mem_singleton.mp hfile
  obtain rfl := sniEntry_demo hck
  exact ⟨⟨[1]⟩, rfl, rfl⟩

/-- `from_sni_pem_files` accepts a certificate with a foreign key and presents the pair. -/
theorem sni_mispaired :
    demoRustls.Lawful (fun leaf key => leaf.der = key) (fun _ certs => certs ≠ []) ∧
    demoOpenssl.Lawful (· = ·) ∧
    ¬ (TlsCall.rustls (.fromSniPemFiles [("a.test", [1], [2])])).KeysMatch demoRustls demoOpenssl
      (fun leaf key => leaf.der = key) (· = ·) := by
  refine ⟨demoRustls_lawful, demoOpenssl_lawful, fun h => ?_⟩
  obtain ⟨leaf, hleaf, hkey⟩ := h 2 _ rfl ⟨some "a.test"⟩ ⟨[⟨[1]⟩], [2]⟩ rfl
  obtain rfl := Option.some.inj hleaf
  exact absurd hkey (by decide)

end Demo

end AxumServer
