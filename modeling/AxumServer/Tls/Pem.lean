import AxumServer.Tls.Pairing

/-! # Reading certificates and keys from PEM sections

The two loops over the items of a PEM iterator. One leaves at the first error. The other
looks for a key over the whole file, drops the errors between and refuses a second key;
whether it ends is left to the iterator.
-/

namespace AxumServer.TlsRustls

open Fallible

variable {P α : Type}

def Sections.ofItems (items : List (Except P α)) : Sections P α := fun k => items[k]?

def parsed (items : List (Except P α)) : List α := items.filterMap Except.toOption

@[simp] theorem parsed_nil : parsed ([] : List (Except P α)) = [] := rfl

@[simp] theorem parsed_ok (a : α) (items : List (Except P α)) :
    parsed (.ok a :: items) = a :: parsed items := rfl

@[simp] theorem parsed_error (e : P) (items : List (Except P α)) :
    parsed (.error e :: items) = parsed items := rfl

theorem mem_parsed_of_head? {items : List (Except P α)} {a : α}
    (h : items.head? = some (.ok a)) : a ∈ parsed items := by
  cases items with
  | nil => cases h
  | cons item items =>
    obtain rfl : item = .ok a := Option.some.inj h
    simp

section PrivateKey
variable {E R : Type}

/-- The key that the loop of `private_key_from_pem` has found so far. -/
def keyFound (keyResult : Except (IoError E (BoxError R)) PrivateKeyDer) : List PrivateKeyDer :=
  keyResult.toOption.toList

@[simp] theorem keyFound_ok (key : PrivateKeyDer) :
    keyFound (.ok key : Except (IoError E (BoxError R)) PrivateKeyDer) = [key] := rfl

@[simp] theorem keyFound_error (e : IoError E (BoxError R)) : keyFound (.error e) = [] := rfl

/-- The loop from item `k` on: the key it returns is the only one among the key found before and
the items that are left. -/
theorem privateKeyLoop_items (items : List (Except P PrivateKeyDer)) (turns k : ℕ)
    (keyResult : Except (IoError E (BoxError R)) PrivateKeyDer) (hk : k ≤ items.length)
    (hturns : items.length < k + turns) :
    ∃ r, privateKeyLoop (.ofItems items) turns k keyResult = some r ∧
      ∀ key, r = .ok key ↔ keyFound keyResult ++ parsed (items.drop k) = [key] := by
  induction turns generalizing k keyResult with
  | zero => omega
  | succ turns ih =>
    by_cases hend : k = items.length
    · refine ⟨keyResult, ?_, fun key => ?_⟩
      · simp [privateKeyLoop, Sections.ofItems, hend]
      · rw [hend, List.drop_length]
        cases keyResult <;> simp
    · have hlt : k < items.length := by omega
      have hitem : Sections.ofItems items k = some items[k] := List.getElem?_eq_getElem hlt
      rw [List.drop_eq_getElem_cons hlt]
      simp only [privateKeyLoop, hitem]
      cases keyResult with
      | error e =>
        obtain ⟨r, hr, hkey⟩ := ih (k + 1)
          (items[k].mapError fun _ => otherText "failed to parse PEM")
          hlt (by omega)
        refine ⟨r, hr, fun key => (hkey key).trans ?_⟩
        cases items[k] <;> simp [Except.mapError]
      | ok found =>
        cases hi : items[k] with
        | ok key => exact ⟨_, rfl, by simp⟩
        | error e =>
          obtain ⟨r, hr, hkey⟩ := ih (k + 1) (.ok found) hlt (by omega)
          exact ⟨r, hr, fun key => by simpa using hkey key⟩

section Finite
variable {items : List (Except P PrivateKeyDer)} {turns : ℕ}

theorem returns_privateKeyFromPem (hturns : items.length < turns) :
    Returns (privateKeyFromPem (.ofItems items) turns : Load E R _) := by
  obtain ⟨r, hr, -⟩ := privateKeyLoop_items (E := E) (R := R) items turns 0
    (.error (otherText "The private key file contained no keys")) (Nat.zero_le _) (by omega)
  simp [Returns, privateKeyFromPem, hr]

theorem yields_privateKeyFromPem (hturns : items.length < turns) {key : PrivateKeyDer} :
    Yields (privateKeyFromPem (.ofItems items) turns : Load E R _) key ↔ parsed items = [key] := by
  obtain ⟨r, hr, hkey⟩ := privateKeyLoop_items (E := E) (R := R) items turns 0
    (.error (otherText "The private key file contained no keys")) (Nat.zero_le _) (by omega)
  simpa [Yields, privateKeyFromPem, hr] using hkey key

end Finite

/-- `private_key_from_pem` on a file of finitely many sections. -/
def privateKeyFromItems (items : List (Except P PrivateKeyDer)) (more : ℕ) :
    Load E R PrivateKeyDer :=
  privateKeyFromPem (.ofItems items) (items.length + 1 + more)

theorem yields_privateKeyFromItems {items : List (Except P PrivateKeyDer)} {more : ℕ}
    {key : PrivateKeyDer} :
    Yields (privateKeyFromItems items more : Load E R _) key ↔ parsed items = [key] :=
  yields_privateKeyFromPem (by omega)

theorem fails_privateKeyFromItems {items : List (Except P PrivateKeyDer)} {more : ℕ} :
    Fails (privateKeyFromItems items more : Load E R _) ↔ (parsed items).length ≠ 1 := by
  have hreturns : Returns (privateKeyFromItems items more : Load E R _) :=
    returns_privateKeyFromPem (by omega)
  rw [hreturns.fails_iff, Ne, List.length_eq_one_iff]
  simp only [yields_privateKeyFromItems, not_exists]

/-- `private_key_from_pem` accepts exactly the files with one private key, wherever it stands
among sections that do not parse. -/
theorem privateKeyFromPem_unique (items : List (Except P PrivateKeyDer)) (more : ℕ) :
    (∀ key, Yields (privateKeyFromItems items more : Load E R _) key ↔ parsed items = [key]) ∧
      (Fails (privateKeyFromItems items more : Load E R _) ↔ (parsed items).length ≠ 1) ∧
      ∀ items', items.Perm items' → ∀ key,
        Yields (privateKeyFromItems items more : Load E R _) key ↔
          Yields (privateKeyFromItems items' more : Load E R _) key := by
  refine ⟨fun key => yields_privateKeyFromItems, fails_privateKeyFromItems,
    fun items' hperm key => ?_⟩
  have hkeys : (parsed items).Perm (parsed items') := hperm.filterMap Except.toOption
  rw [yields_privateKeyFromItems, yields_privateKeyFromItems]
  constructor
  · intro h
    rw [h] at hkeys
    exact List.singleton_perm.mp hkeys |>.symm
  · intro h
    rw [h] at hkeys
    exact List.perm_singleton.mp hkeys

end PrivateKey

/-! ## Whether the loops end -/

section Stops
variable {E R : Type} {sections : Sections P PrivateKeyDer}

/-- The loader returns, however many turns it may spend once they are enough. -/
def Stops (load : ℕ → Load E R α) : Prop :=
  ∃ enough, ∀ turns, enough ≤ turns → Returns (load turns)

/-- The iterator makes progress over each section that parses: there are `rest k` octets left
before call `k`.  It may stand still before a section that does not parse. -/
def Progress (sections : Sections P α) (size : ℕ) : Prop :=
  ∃ rest : ℕ → ℕ, rest 0 ≤ size ∧ ∀ k, rest (k + 1) ≤ rest k ∧
    ∀ item, sections k = some (.ok item) → rest (k + 1) < rest k

/-- The iterator never ends: from some call on it yields only errors, after at most one item. -/
def Stuck (sections : Sections P α) : Prop :=
  (∀ k, sections k ≠ none) ∧
    ∀ i j item item', sections i = some (.ok item) → sections j = some (.ok item') → i = j

/-- The loop of `certificates_from_pem` ends: it goes on only past a section that parses. -/
theorem collectSections_stops {sections : Sections P α} {rest : ℕ → ℕ}
    (hrest : ∀ k item, sections k = some (.ok item) → rest (k + 1) < rest k) (turns k : ℕ)
    (items : List α) (hturns : rest k < turns) : collectSections sections turns k items ≠ none := by
  induction turns generalizing k items with
  | zero => omega
  | succ turns ih =>
    rw [collectSections]
    cases hk : sections k with
    | none => simp
    | some item =>
      cases item with
      | error e => simp
      | ok item =>
        have hlt := hrest k item hk
        exact ih (k + 1) _ (by omega)

theorem certificatesFromPem_stops {sections : Sections P CertificateDer} {size : ℕ}
    (h : Progress sections size) : Stops (certificatesFromPem sections : ℕ → Load E R _) := by
  obtain ⟨rest, hsize, hrest⟩ := h
  refine ⟨size + 1, fun turns hturns => ?_⟩
  have hstop := collectSections_stops (fun k => (hrest k).2) turns 0 [] (by omega)
  exact Returns.adapt hstop _

/-- The loop ends where the iterator ends, and at a section with a second key. -/
theorem privateKeyLoop_stops (turns k d : ℕ)
    (keyResult : Except (IoError E (BoxError R)) PrivateKeyDer)
    (hd : sections (k + d) = none ∨ (∃ key, sections (k + d) = some (.ok key)) ∧
      ((∃ key, keyResult = .ok key) ∨ ∃ i < d, ∃ key, sections (k + i) = some (.ok key)))
    (hturns : d < turns) : privateKeyLoop sections turns k keyResult ≠ none := by
  induction turns generalizing k d keyResult with
  | zero => omega
  | succ turns ih =>
    rw [privateKeyLoop]
    cases hk : sections k with
    | none => simp
    | some item =>
      cases d with
      | zero =>
        -- the section of this turn is the second key
        obtain ⟨⟨key, hkey⟩, ⟨found, rfl⟩ | ⟨i, hi, -⟩⟩ := hd.resolve_left (by simp [hk])
        · obtain rfl : item = .ok key := Option.some.inj (hk.symm.trans hkey)
          simp [Except.mapError]
        · omega
      | succ d =>
        have hshift : k + (d + 1) = k + 1 + d := by omega
        rw [hshift] at hd
        cases keyResult with
        | ok found =>
          cases item with
          | ok key => simp [Except.mapError]
          | error e =>
            apply ih (k + 1) d _ _ (by omega)
            exact hd.imp id fun h => ⟨h.1, .inl ⟨found, rfl⟩⟩
        | error e =>
          apply ih (k + 1) d _ _ (by omega)
          refine hd.imp id fun ⟨hkey, hbefore⟩ => ⟨hkey, ?_⟩
          obtain ⟨i, hi, key, hikey⟩ := hbefore.resolve_left (by simp)
          cases i with
          | zero =>
            obtain rfl : item = .ok key := Option.some.inj (hk.symm.trans hikey)
            exact .inl ⟨key, rfl⟩
          | succ i =>
            have hshift : k + (i + 1) = k + 1 + i := by omega
            exact .inr ⟨i, by omega, key, by rw [← hshift, hikey]⟩

/-- On an iterator that never ends and yields no second key the loop goes on for ever. -/
theorem privateKeyLoop_stuck (turns k : ℕ)
    (keyResult : Except (IoError E (BoxError R)) PrivateKeyDer)
    (hnone : ∀ j, k ≤ j → sections j ≠ none)
    (hone : ∀ i j key key', k ≤ i → k ≤ j → sections i = some (.ok key) →
      sections j = some (.ok key') → i = j)
    (hfound : ∀ found, keyResult = .ok found → ∀ j key, k ≤ j → sections j ≠ some (.ok key)) :
    privateKeyLoop sections turns k keyResult = none := by
  induction turns generalizing k keyResult with
  | zero => rfl
  | succ turns ih =>
    rw [privateKeyLoop]
    have hnone' (j : ℕ) (hj : k + 1 ≤ j) : sections j ≠ none := hnone j (by omega)
    have hone' (i j : ℕ) (key key' : PrivateKeyDer) (hi : k + 1 ≤ i) (hj : k + 1 ≤ j) :=
      hone i j key key' (by omega) (by omega)
    cases hk : sections k with
    | none => exact absurd hk (hnone k le_rfl)
    | some item =>
      cases keyResult with
      | ok found =>
        cases item with
        | ok key => exact absurd hk (hfound found rfl k key le_rfl)
        | error e =>
          exact ih (k + 1) _ hnone' hone' fun _ _ j key hj => hfound found rfl j key (by omega)
      | error e =>
        apply ih (k + 1) _ hnone' hone'
        intro found hitem j key hj hjkey
        cases item with
        | error e' => simp [Except.mapError] at hitem
        | ok key' =>
          have := hone k j key' key le_rfl (by omega) hk hjkey
          omega

theorem privateKeyFromPem_stops_iff :
    Stops (privateKeyFromPem sections : ℕ → Load E R _) ↔ ¬ Stuck sections := by
  constructor
  · rintro ⟨enough, hstop⟩ ⟨hnone, hone⟩
    apply hstop enough le_rfl
    exact privateKeyLoop_stuck enough 0 _ (fun j _ => hnone j)
      (fun i j key key' _ _ => hone i j key key') (by simp)
  · intro hstuck
    have hends : ∃ d, sections d = none ∨ (∃ key, sections d = some (.ok key)) ∧
        ∃ i < d, ∃ key, sections i = some (.ok key) := by
      by_contra hnot
      apply hstuck
      refine ⟨fun k hk => hnot ⟨k, .inl hk⟩, fun i j key key' hi hj => ?_⟩
      rcases lt_trichotomy i j with hlt | heq | hlt
      · exact absurd ⟨j, .inr ⟨⟨key', hj⟩, i, hlt, key, hi⟩⟩ hnot
      · exact heq
      · exact absurd ⟨i, .inr ⟨⟨key, hi⟩, j, hlt, key', hj⟩⟩ hnot
    obtain ⟨d, hd⟩ := hends
    refine ⟨d + 1, fun turns hturns => ?_⟩
    apply privateKeyLoop_stops turns 0 d _ _ (by omega)
    simpa using hd

end Stops

variable {Path E R K S V : Type}

/-- Loading PEM material ends exactly on the files whose key iterator does not get stuck at a
section that does not parse, with at most one key before it. -/
theorem loading_stops_iff {lib : Library Path E P R K S V}
    (hcerts : ∀ file, Progress (lib.certSections file) file.length) (cert key : Bytes) :
    (Stops (certificatesFromPem (lib.certSections cert) : ℕ → Load E R _) ∧
      Stops (privateKeyFromPem (lib.keySections key) : ℕ → Load E R _)) ↔
        ¬ Stuck (lib.keySections key) := by
  rw [privateKeyFromPem_stops_iff]
  exact and_iff_right (certificatesFromPem_stops (hcerts cert))

/-- A file with one octet for each section: 0 for a section that does not parse, which the cursor
does not move past, and anything else for one that does. -/
def octetCursor (file : Bytes) : ℕ → Bytes
  | 0 => file
  | k + 1 =>
    match octetCursor file k with
    | [] => []
    | 0 :: rest => 0 :: rest
    | _ :: rest => rest

def octetSections (make : UInt8 → α) (file : Bytes) : Sections Unit α := fun k =>
  match octetCursor file k with
  | [] => none
  | 0 :: _ => some (.error ())
  | octet :: _ => some (.ok (make octet))

theorem octetSections_progress (make : UInt8 → α) (file : Bytes) :
    Progress (octetSections make file) file.length := by
  refine ⟨fun k => (octetCursor file k).length, le_rfl, fun k => ⟨?_, fun item hk => ?_⟩⟩
  · simp only [octetCursor]
    split <;> simp_all
  · simp only [octetSections] at hk
    simp only [octetCursor]
    split at hk <;> simp_all

/-- A small rustls that reads such files. -/
def octetRustls : Library Bytes Unit Unit Unit Bytes
    (ClientHello → Option (CertifiedKey Bytes)) (ClientHello → Option (CertifiedKey Bytes)) :=
  { demoRustls with
    certSections := octetSections fun octet => ⟨[octet]⟩
    keySections := octetSections fun octet => .pkcs8 [octet]
    fromPemSlice := fun file =>
      (octetSections (fun octet => .pkcs8 [octet]) file 0).getD (.error ()) }

/-- A file whose key parses, and then ends. -/
theorem loading_stops_clean :
    Stops (certificatesFromPem (octetRustls.certSections [1]) : ℕ → Load Unit Unit _) ∧
      Stops (privateKeyFromPem (octetRustls.keySections [1]) : ℕ → Load Unit Unit _) :=
  have hprogress (file : Bytes) : Progress (octetRustls.certSections file) file.length :=
    octetSections_progress _ file
  (loading_stops_iff hprogress [1] [1]).mpr fun hstuck => hstuck.1 1 rfl

/-- At a section that does not parse the iterator stands still, and the loop with it. -/
theorem loading_hangs :
    (∀ file, Progress (octetRustls.certSections file) file.length) ∧
      (∀ file, Progress (octetRustls.keySections file) file.length) ∧
      ∀ turns, (privateKeyFromPem (octetRustls.keySections [0]) turns : Load Unit Unit _).run =
        none := by
  refine ⟨octetSections_progress _, octetSections_progress _, fun turns => ?_⟩
  have hcursor (k : ℕ) : octetCursor [0] k = [0] := by
    induction k with
    | zero => rfl
    | succ k ih =>
      rw [octetCursor, ih]
      rfl
  have herror (k : ℕ) : octetRustls.keySections [0] k = some (.error ()) := by
    simp only [octetRustls, octetSections, hcursor]
  apply privateKeyLoop_stuck turns 0
  · simp [herror]
  · simp [herror]
  · simp

/-! ## The two loaders of PEM files -/

section Files
variable {lib : Library Path E P R K S V} {turns : ℕ}

def SameOutcome (x y : Load E R α) : Prop :=
  (∃ a, Yields x a ∧ Yields y a) ∨ Fails x ∧ Fails y

theorem collectSections_items (items : List (Except P α)) (turns k : ℕ) (before : List α)
    (hk : k ≤ items.length) (hturns : items.length < k + turns) :
    ∃ r, collectSections (.ofItems items) turns k before = some r ∧
      ∀ all, r = .ok all ↔ ∃ rest, items.drop k = rest.map .ok ∧ all = before ++ rest := by
  induction turns generalizing k before with
  | zero => omega
  | succ turns ih =>
    rw [collectSections]
    by_cases hend : k = items.length
    · have hitem : Sections.ofItems items k = none := by simp [Sections.ofItems, hend]
      rw [hitem]
      refine ⟨_, rfl, fun all => ?_⟩
      simp [hend, eq_comm]
    · have hlt : k < items.length := by omega
      have hitem : Sections.ofItems items k = some items[k] := List.getElem?_eq_getElem hlt
      rw [hitem, List.drop_eq_getElem_cons hlt]
      cases hi : items[k] with
      | error e =>
        refine ⟨_, rfl, fun all => ⟨by simp, ?_⟩⟩
        rintro ⟨rest, hrest, -⟩
        cases rest <;> simp at hrest
      | ok item =>
        obtain ⟨r, hr, hall⟩ := ih (k + 1) (before ++ [item]) hlt (by omega)
        refine ⟨r, hr, fun all => (hall all).trans ?_⟩
        constructor
        · rintro ⟨rest, hrest, rfl⟩
          exact ⟨item :: rest, by simp [hrest], by simp⟩
        · rintro ⟨rest, hrest, rfl⟩
          cases rest with
          | nil => simp at hrest
          | cons item' rest =>
            simp only [List.map_cons, List.cons.injEq, Except.ok.injEq] at hrest
            obtain ⟨rfl, hrest⟩ := hrest
            exact ⟨rest, hrest, by simp⟩

variable {certItems : List (Except P CertificateDer)} {keyItems : List (Except P PrivateKeyDer)}
  {certFile keyFile : Bytes} {certPath keyPath : Path}

theorem returns_certificatesFromPem (hturns : certItems.length < turns) :
    Returns (certificatesFromPem (.ofItems certItems) turns : Load E R _) := by
  obtain ⟨r, hr, -⟩ := collectSections_items certItems turns 0 [] (Nat.zero_le _) (by omega)
  exact Returns.adapt (x := ExceptT.mk _) (by simp [Returns, hr]) _

theorem yields_certificatesFromPem (hturns : certItems.length < turns)
    {certs : List CertificateDer} :
    Yields (certificatesFromPem (.ofItems certItems) turns : Load E R _) certs ↔
      certItems = certs.map .ok := by
  obtain ⟨r, hr, hall⟩ := collectSections_items certItems turns 0 [] (Nat.zero_le _) (by omega)
  rw [certificatesFromPem, yields_adapt, Yields, ExceptT.run_mk, hr, Option.some.injEq, hall]
  simp

/-- `with_single_cert` accepts the key with the certificates of the file. -/
def Accepted (lib : Library Path E P R K S V) (certItems : List (Except P CertificateDer))
    (key : PrivateKeyDer) (config : ServerConfig V) : Prop :=
  ∃ certs, certItems = certs.map .ok ∧ lib.withSingleCert certs key = .ok config

theorem exists_accepted {Q : PrivateKeyDer → Prop} {T : ServerConfig V → Prop} :
    (∃ certs : List CertificateDer, certItems = certs.map .ok ∧ ∃ key, Q key ∧
      ∃ config, lib.withSingleCert certs key = .ok config ∧ T config) ↔
      ∃ key config, Q key ∧ Accepted lib certItems key config ∧ T config := by
  constructor
  · rintro ⟨certs, hcerts, key, hkey, config, hsingle, hconfig⟩
    exact ⟨key, config, hkey, ⟨certs, hcerts, hsingle⟩, hconfig⟩
  · rintro ⟨key, config, hkey, ⟨certs, hcerts, hsingle⟩, hconfig⟩
    exact ⟨certs, hcerts, key, hkey, config, hsingle, hconfig⟩

theorem yields_configFromCertAndKey {certs : List CertificateDer} {key : PrivateKeyDer}
    {config : ServerConfig V} :
    Yields (configFromCertAndKey lib certs key) config ↔
      ∃ config', lib.withSingleCert certs key = .ok config' ∧ setAlpn config' = config := by
  simp only [configFromCertAndKey, yields_bind, yields_orRustls, yields_pure]

theorem returns_configFromCertAndKey {certs : List CertificateDer} {key : PrivateKeyDer} :
    Returns (configFromCertAndKey lib certs key) :=
  Returns.bind (returns_returned _) fun _ _ => returns_pure _

theorem returns_construct {load : Load E R (ServerConfig V)} (h : Returns load) :
    Returns (RustlsConfig.construct load) := Returns.bind h fun _ _ => returns_pure _

theorem returns_readFile (path : Path) : Returns (readFile lib path) := returns_returned _

theorem yields_readFile {path : Path} {file : Bytes} :
    Yields (readFile lib path) file ↔ lib.read path = .ok file := by
  simp [readFile]

section Contents
variable (hcert : lib.read certPath = .ok certFile) (hkey : lib.read keyPath = .ok keyFile)
  (hcs : lib.certSections certFile = .ofItems certItems)
  (hks : lib.keySections keyFile = .ofItems keyItems)
  (hslice : ∀ key, lib.fromPemSlice keyFile = .ok key ↔
    lib.keySections keyFile 0 = some (.ok key))
  (hcertTurns : certItems.length < turns) (hkeyTurns : keyItems.length < turns)
include hcert hkey hcs hks hcertTurns

include hkeyTurns in
theorem yields_fromPemFile {config : RustlsConfig V} :
    Yields (RustlsConfig.fromPemFile lib turns certPath keyPath) config ↔
      ∃ key config', parsed keyItems = [key] ∧ Accepted lib certItems key config' ∧
        setAlpn config' = config.inner := by
  simp only [RustlsConfig.fromPemFile, yields_construct, configFromPemFile, configFromPem,
    yields_bind, readFile, yields_returned, hcert, hkey, Except.mapError, Except.ok.injEq,
    exists_eq_left', hcs, hks, yields_configFromCertAndKey,
    yields_certificatesFromPem hcertTurns, yields_privateKeyFromPem hkeyTurns]
  exact exists_accepted

include hslice in
theorem yields_fromPemChainFile {config : RustlsConfig V} :
    Yields (RustlsConfig.fromPemChainFile lib turns certPath keyPath) config ↔
      ∃ key config', keyItems.head? = some (.ok key) ∧ Accepted lib certItems key config' ∧
        setAlpn config' = config.inner := by
  simp only [RustlsConfig.fromPemChainFile, yields_construct, configFromPemChainFile,
    yields_bind, readFile, yields_returned, hcert, hkey, Except.mapError, Except.ok.injEq,
    exists_eq_left', hcs, yields_orText, hslice, hks, Sections.ofItems, ← List.head?_eq_getElem?,
    yields_configFromCertAndKey, yields_certificatesFromPem hcertTurns]
  exact exists_accepted

include hks hkeyTurns in
theorem returns_fromPemFile : Returns (RustlsConfig.fromPemFile lib turns certPath keyPath) := by
  refine returns_construct (.bind (returns_readFile _) fun cert hc => ?_)
  refine .bind (returns_readFile _) fun key hk => ?_
  obtain rfl := Except.ok.inj (hcert.symm.trans (yields_readFile.mp hc))
  obtain rfl := Except.ok.inj (hkey.symm.trans (yields_readFile.mp hk))
  rw [configFromPem, hcs, hks]
  refine .bind (returns_certificatesFromPem hcertTurns) fun certs _ => ?_
  exact .bind (returns_privateKeyFromPem hkeyTurns) fun key _ => returns_configFromCertAndKey

omit hkey hks in
theorem returns_fromPemChainFile :
    Returns (RustlsConfig.fromPemChainFile lib turns certPath keyPath) := by
  refine returns_construct (.bind (returns_readFile _) fun cert hc => ?_)
  obtain rfl := Except.ok.inj (hcert.symm.trans (yields_readFile.mp hc))
  rw [hcs]
  refine .bind (returns_certificatesFromPem hcertTurns) fun certs _ => ?_
  refine .bind (returns_readFile _) fun key _ => ?_
  exact .bind (returns_returned _) fun key _ => returns_configFromCertAndKey

end Contents

/-- The two PEM file loaders agree exactly when every key that goes with the certificates is the
only key of its file if and only if it is the first item that the key iterator yields. -/
theorem pemFile_agrees_iff (hcert : lib.read certPath = .ok certFile)
    (hkey : lib.read keyPath = .ok keyFile) (hcs : lib.certSections certFile = .ofItems certItems)
    (hks : lib.keySections keyFile = .ofItems keyItems)
    (hslice : ∀ key, lib.fromPemSlice keyFile = .ok key ↔
      lib.keySections keyFile 0 = some (.ok key))
    (hcertTurns : certItems.length < turns) (hkeyTurns : keyItems.length < turns) :
    SameOutcome (RustlsConfig.fromPemFile lib turns certPath keyPath)
        (RustlsConfig.fromPemChainFile lib turns certPath keyPath) ↔
      ∀ key config, Accepted lib certItems key config →
        (parsed keyItems = [key] ↔ keyItems.head? = some (.ok key)) := by
  have hfile (config : RustlsConfig V) :
      Yields (RustlsConfig.fromPemFile lib turns certPath keyPath) config ↔ _ :=
    yields_fromPemFile hcert hkey hcs hks hcertTurns hkeyTurns
  have hchain (config : RustlsConfig V) :
      Yields (RustlsConfig.fromPemChainFile lib turns certPath keyPath) config ↔ _ :=
    yields_fromPemChainFile hcert hkey hcs hks hslice hcertTurns
  constructor
  · intro hsame key config haccepted
    have hfirst_mem (key' : PrivateKeyDer) (h : keyItems.head? = some (.ok key'))
        (hone : parsed keyItems = [key]) : key' = key := by
      simpa [hone] using mem_parsed_of_head? h
    constructor
    · intro hone
      have hyields := (hfile ⟨setAlpn config⟩).mpr ⟨key, config, hone, haccepted, rfl⟩
      rcases hsame with ⟨a, -, ha⟩ | ⟨hfails, -⟩
      · obtain ⟨key', -, hfirst, -, -⟩ := (hchain a).mp ha
        rwa [hfirst_mem key' hfirst hone] at hfirst
      · exact absurd hyields (hfails.not_yields _)
    · intro hfirst
      have hyields := (hchain ⟨setAlpn config⟩).mpr ⟨key, config, hfirst, haccepted, rfl⟩
      rcases hsame with ⟨a, ha, -⟩ | ⟨-, hfails⟩
      · obtain ⟨key', -, hone, -, -⟩ := (hfile a).mp ha
        have hmem : key ∈ [key'] := hone ▸ mem_parsed_of_head? hfirst
        rwa [List.mem_singleton.mp hmem]
      · exact absurd hyields (hfails.not_yields _)
  · intro hagree
    by_cases hyields : ∃ config, Yields (RustlsConfig.fromPemFile lib turns certPath keyPath) config
    · obtain ⟨a, ha⟩ := hyields
      obtain ⟨key, config, hone, haccepted, hinner⟩ := (hfile a).mp ha
      have hfirst := (hagree key config haccepted).mp hone
      exact .inl ⟨a, ha, (hchain a).mpr ⟨key, config, hfirst, haccepted, hinner⟩⟩
    · right
      rw [(returns_fromPemFile hcert hkey hcs hks hcertTurns hkeyTurns).fails_iff,
        (returns_fromPemChainFile hcert hcs hcertTurns).fails_iff]
      refine ⟨not_exists.mp hyields, fun a ha => ?_⟩
      obtain ⟨key, config, hfirst, haccepted, hinner⟩ := (hchain a).mp ha
      have hone := (hagree key config haccepted).mpr hfirst
      exact hyields ⟨a, (hfile a).mpr ⟨key, config, hone, haccepted, hinner⟩⟩

end Files

theorem ne_zero_of_drop {file rest : Bytes} {octet : UInt8} {k : ℕ} (h : 0 ∉ file)
    (hdrop : file.drop k = octet :: rest) : octet ≠ 0 := by
  rintro rfl
  exact h (List.mem_of_mem_drop (hdrop ▸ List.mem_cons_self))

theorem octetCursor_eq_drop {file : Bytes} (h : 0 ∉ file) (k : ℕ) :
    octetCursor file k = file.drop k := by
  induction k with
  | zero => rfl
  | succ k ih =>
    rw [octetCursor, ih, List.drop_add_one_eq_tail_drop]
    cases hdrop : file.drop k with
    | nil => rfl
    | cons octet rest =>
      have hne := ne_zero_of_drop h hdrop
      simp

theorem octetSections_eq_ofItems (make : UInt8 → α) {file : Bytes} (h : 0 ∉ file) :
    octetSections make file = .ofItems (file.map fun octet => .ok (make octet)) := by
  funext k
  rw [octetSections, octetCursor_eq_drop h, Sections.ofItems, List.getElem?_map,
    ← List.head?_drop]
  cases hdrop : file.drop k with
  | nil => rfl
  | cons octet rest =>
    have hne := ne_zero_of_drop h hdrop
    simp

theorem octetRustls_slice (file : Bytes) (key : PrivateKeyDer) :
    octetRustls.fromPemSlice file = .ok key ↔
      octetRustls.keySections file 0 = some (.ok key) := by
  simp only [octetRustls]
  cases octetSections (fun octet => PrivateKeyDer.pkcs8 [octet]) file 0 <;> simp

/-- A file with the one key of the certificate. -/
theorem pemFile_agrees_single :
    SameOutcome (RustlsConfig.fromPemFile octetRustls 2 [1] [1])
      (RustlsConfig.fromPemChainFile octetRustls 2 [1] [1]) := by
  have hcs : octetRustls.certSections [1] = .ofItems [.ok ⟨[1]⟩] :=
    octetSections_eq_ofItems _ (by decide)
  have hks : octetRustls.keySections [1] = .ofItems [.ok (.pkcs8 [1])] :=
    octetSections_eq_ofItems _ (by decide)
  refine (pemFile_agrees_iff rfl rfl hcs hks (octetRustls_slice [1]) (by decide)
    (by decide)).mpr fun key config _ => ?_
  simp [eq_comm]

/-- A file with a second key: one loader refuses it, the other takes the first key. -/
theorem second_key_ignored :
    (∀ key, octetRustls.fromPemSlice [1, 2] = .ok key ↔
      octetRustls.keySections [1, 2] 0 = some (.ok key)) ∧
    octetRustls.certSections [1] = .ofItems [.ok ⟨[1]⟩] ∧
    octetRustls.keySections [1, 2] = .ofItems [.ok (.pkcs8 [1]), .ok (.pkcs8 [2])] ∧
    ¬ SameOutcome (RustlsConfig.fromPemFile octetRustls 3 [1] [1, 2])
      (RustlsConfig.fromPemChainFile octetRustls 3 [1] [1, 2]) := by
  refine ⟨octetRustls_slice _, octetSections_eq_ofItems _ (by decide),
    octetSections_eq_ofItems _ (by decide), ?_⟩
  have hfile : (RustlsConfig.fromPemFile octetRustls 3 [1] [1, 2]).run = some (.error (otherText
      "The private key file contains multiple keys (it must only contain one)")) := rfl
  have hchain : ∃ config, Yields (RustlsConfig.fromPemChainFile octetRustls 3 [1] [1, 2]) config :=
    ⟨_, rfl⟩
  rintro (⟨a, ha, -⟩ | ⟨-, hfails⟩)
  · rw [Yields, hfile] at ha
    cases ha
  · obtain ⟨config, hconfig⟩ := hchain
    exact hfails.not_yields config hconfig

end AxumServer.TlsRustls
