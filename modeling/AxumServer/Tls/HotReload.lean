import AxumServer.Polling.Cells
import AxumServer.Tls.AcceptorFuture
import AxumServer.Tls.Pairing

/-! # Reloading a configuration under running acceptors

The `reload_from_*` calls of both backends as writers of a shared cell, and acceptor
futures as its readers. A reload awaits its files and its blocking thread, and touches the
cell in its last step. An acceptor future holds a clone from the start and reads it when
the acceptor below completes.
-/

namespace AxumServer

open Fallible Interleaving Polling Cells

namespace TlsRustls

variable {Path E P R K S V : Type}

/-- The `reload_from_*` calls. -/
inductive Reload (Path V : Type) where
  | fromConfig (config : ServerConfig V)
  | fromDer (cert : List Bytes) (key : Bytes)
  | fromPem (cert key : Bytes)
  | fromPemFile (cert key : Path)
  | fromPemWithPassword (cert key password : Bytes)
  | fromPemFileWithPassword (cert key : Path) (password : Bytes)

namespace Reload

variable (lib : Library Path E P R K S V) (turns : ℕ)

/-- The call as it runs by itself. -/
def run (self : RustlsConfig V) :
    Reload Path V → Option (Except (IoError E (BoxError R)) Unit × RustlsConfig V)
  | fromConfig config => some (.ok (), self.reloadFromConfig config)
  | fromDer cert key => self.reloadFromDer lib cert key
  | fromPem cert key => self.reloadFromPem lib turns cert key
  | fromPemFile cert key => self.reloadFromPemFile lib turns cert key
  | fromPemWithPassword cert key password =>
    self.reloadFromPemWithPassword lib turns cert key password
  | fromPemFileWithPassword cert key password =>
    self.reloadFromPemFileWithPassword lib turns cert key password

/-- The constructor of the same name, on the same arguments. -/
def constructor : Reload Path V → Load E R (RustlsConfig V)
  | fromConfig config => return RustlsConfig.fromConfig config
  | fromDer cert key => RustlsConfig.fromDer lib cert key
  | fromPem cert key => RustlsConfig.fromPem lib turns cert key
  | fromPemFile cert key => RustlsConfig.fromPemFile lib turns cert key
  | fromPemWithPassword cert key password =>
    RustlsConfig.fromPemWithPassword lib turns cert key password
  | fromPemFileWithPassword cert key password =>
    RustlsConfig.fromPemFileWithPassword lib turns cert key password

/-- The call one `.await` after the other; what it stores becomes the content of the cell. -/
def plan : Reload Path V → Plan (IoError E (BoxError R)) (RustlsConfig V)
  | fromConfig config => .store ⟨config⟩ .done
  | fromDer cert key => .perform (configFromDer lib cert key) fun config => .store ⟨config⟩ .done
  | fromPem cert key =>
    .perform (configFromPem lib turns cert key) fun config => .store ⟨config⟩ .done
  | fromPemFile cert key =>
    .perform (readFile lib cert) fun cert =>
    .perform (readFile lib key) fun key =>
    .perform (configFromPem lib turns cert key) fun config => .store ⟨config⟩ .done
  | fromPemWithPassword cert key password =>
    .perform (configFromPemWithPassword lib turns cert key password) fun config =>
    .store ⟨config⟩ .done
  | fromPemFileWithPassword cert key password =>
    .perform (readFile lib cert) fun cert =>
    .perform (readFile lib key) fun key =>
    .perform (configFromPemWithPassword lib turns cert key password) fun config =>
    .store ⟨config⟩ .done

/-- A reload stores what the constructor of the same name builds. -/
theorem commits_plan (reload : Reload Path V) :
    (reload.plan lib turns).Commits (reload.constructor lib turns) := by
  cases reload with
  | fromConfig config => exact Plan.commits_store _
  | fromDer | fromPem | fromPemWithPassword =>
    exact Plan.commits_perform _ fun _ => Plan.commits_store _
  | fromPemFile cert key =>
    simp only [constructor, RustlsConfig.fromPemFile, RustlsConfig.construct, configFromPemFile,
      bind_assoc]
    exact Plan.commits_perform _ fun _ => Plan.commits_perform _ fun _ =>
      Plan.commits_perform _ fun _ => Plan.commits_store _
  | fromPemFileWithPassword cert key password =>
    exact Plan.commits_perform _ fun _ => Plan.commits_perform _ fun _ =>
      Plan.commits_perform _ fun _ => Plan.commits_store _

theorem reload_eq_construct (self : RustlsConfig V) (load : Load E R (ServerConfig V)) :
    self.reload load = (RustlsConfig.construct load).run.map (Plan.outcome self) := by
  simp only [RustlsConfig.reload, RustlsConfig.construct, ExceptT.run_bind]
  rcases load.run with _ | (e | config) <;> rfl

/-- The steps by themselves are the reload. -/
theorem run_eq_plan (self : RustlsConfig V) (reload : Reload Path V) :
    reload.run lib turns self = (reload.plan lib turns).run self := by
  rw [(commits_plan lib turns reload).run]
  cases reload with
  | fromConfig config => rfl
  | fromDer | fromPem | fromPemFile | fromPemWithPassword => exact reload_eq_construct self _
  | fromPemFileWithPassword cert key password =>
    simp only [run, RustlsConfig.reloadFromPemFileWithPassword, reload_eq_construct,
      RustlsConfig.construct, constructor, RustlsConfig.fromPemFileWithPassword,
      RustlsConfig.fromPemWithPassword, bind_assoc]

end Reload

end TlsRustls

namespace TlsOpenssl

variable {Path ErrorStack X509 PKey D A : Type}

inductive Reload (Path A : Type) where
  | fromAcceptor (acceptor : A)
  | fromDer (cert key : Bytes)
  | fromPem (cert key : Bytes)
  | fromPemFile (cert key : Path)
  | fromPemChainFile (chain key : Path)

namespace Reload

variable (lib : Library Path ErrorStack X509 PKey D A)

def run (self : OpenSSLConfig A) : Reload Path A → Except ErrorStack Unit × OpenSSLConfig A
  | fromAcceptor acceptor => (.ok (), self.reloadFromAcceptor acceptor)
  | fromDer cert key => self.reloadFromDer lib cert key
  | fromPem cert key => self.reloadFromPem lib cert key
  | fromPemFile cert key => self.reloadFromPemFile lib cert key
  | fromPemChainFile chain key => self.reloadFromPemChainFile lib chain key

def constructor : Reload Path A → Except ErrorStack (OpenSSLConfig A)
  | fromAcceptor acceptor => return OpenSSLConfig.fromAcceptor acceptor
  | fromDer cert key => OpenSSLConfig.fromDer lib cert key
  | fromPem cert key => OpenSSLConfig.fromPem lib cert key
  | fromPemFile cert key => OpenSSLConfig.fromPemFile lib cert key
  | fromPemChainFile chain key => OpenSSLConfig.fromPemChainFile lib chain key

def planOf (load : Except ErrorStack A) : Plan ErrorStack (OpenSSLConfig A) :=
  .perform (returned load) fun acceptor => .store ⟨acceptor⟩ .done

/-- The call in steps; what it stores becomes the content of the cell. -/
def plan : Reload Path A → Plan ErrorStack (OpenSSLConfig A)
  | fromAcceptor acceptor => .store ⟨acceptor⟩ .done
  | fromDer cert key => planOf (configFromDer lib cert key)
  | fromPem cert key => planOf (configFromPem lib cert key)
  | fromPemFile cert key => planOf (configFromPemFile lib cert key)
  | fromPemChainFile chain key => planOf (configFromPemChainFile lib chain key)

theorem commits_planOf (load : Except ErrorStack A) :
    (planOf load).Commits (returned (OpenSSLConfig.construct load)) := by
  have hbind : (returned (OpenSSLConfig.construct load) : ExceptT ErrorStack Option _) =
      returned load >>= fun acceptor => pure ⟨acceptor⟩ := by
    cases load <;> rfl
  rw [hbind]
  exact Plan.commits_perform _ fun _ => Plan.commits_store _

theorem commits_plan (reload : Reload Path A) :
    (reload.plan lib).Commits (returned (reload.constructor lib)) := by
  cases reload with
  | fromAcceptor acceptor => exact Plan.commits_store _
  | fromDer | fromPem | fromPemFile | fromPemChainFile => exact commits_planOf _

theorem reload_eq_construct (self : OpenSSLConfig A) (load : Except ErrorStack A) :
    some (self.reload load) =
      (returned (OpenSSLConfig.construct load)).run.map (Plan.outcome self) := by
  cases load <;> rfl

theorem run_eq_plan (self : OpenSSLConfig A) (reload : Reload Path A) :
    some (reload.run lib self) = (reload.plan lib).run self := by
  rw [(commits_plan lib reload).run]
  cases reload with
  | fromAcceptor acceptor => rfl
  | fromDer | fromPem | fromPemFile | fromPemChainFile => exact reload_eq_construct self _

end Reload

end TlsOpenssl

/-! ## The acceptors -/

section Acceptors
variable {Env ε C K Cfg I H X T S F E O : Type}

/-- The backend with its configurations in the cells of a system: the handshake, its timer
and the acceptor below do not see them. -/
def Backend.shared (b : Backend Env ε C Cfg I H X T (AcceptError E O)) (view : K → Cfg) :
    Backend (Env × (ℕ → K)) (ε ⊕ TlsEvent Cfg I) ℕ Cfg I H X T (AcceptError E O) where
  getInner now config := view (now.2 config)
  start := b.start
  handshake := b.handshake.over Prod.fst .inl
  info := b.info
  sleep now duration := b.sleep now.1 duration
  delay := b.delay.over Prod.fst .inl
  emit := .inr

/-- `poll` of an acceptor future in the system. A poll is one step: it looks at a cell
once. -/
def acceptorPoll (b : Backend Env ε C Cfg I H X T (AcceptError E O)) (view : K → Cfg)
    (inner : PollFn Env ε F (Accepted E O I S)) (more : ℕ) :
    PollFn (Env × (ℕ → K)) (ε ⊕ TlsEvent Cfg I) (AcceptorFuture F H T ℕ S)
      (Accepted E O X (TlsService S)) :=
  loop (AcceptorFuture.turn (b.shared view) (inner.over Prod.fst .inl)) (2 + more)

/-- The configuration is read, and a handshake started with it, in the poll in which the
acceptor below is ready with a stream. -/
def acceptorPattern (inner : PollFn Env ε F (Accepted E O I S)) (view : K → Cfg) :
    Pattern Env (ε ⊕ TlsEvent Cfg I) (AcceptorFuture F H T ℕ S) K Cfg where
  completes env self :=
    match self.inner with
    | .inner future _ =>
      match (inner env future).verdict with
      | .ready (.ok _) => true
      | _ => false
    | .accept _ _ => false
  mentions
    | .inr (.getInner config) => some config
    | .inr (.handshake config _) => some config
    | _ => none
  view := view
  waits config self := ∃ future handshakeTimeout, self = .new future config handshakeTimeout
  past self := ∃ future service, self.inner = .accept future service

variable (b : Backend Env ε C Cfg I H X T (AcceptError E O)) (view : K → Cfg)
  (inner : PollFn Env ε F (Accepted E O I S)) (more : ℕ)

theorem mentions_inl {evs : List ε} :
    ∀ e ∈ evs.map (Sum.inl : ε → ε ⊕ TlsEvent Cfg I),
      (acceptorPattern (H := H) (T := T) inner view).mentions e = none := by
  intro e he
  obtain ⟨e, -, rfl⟩ := List.mem_map.mp he
  rfl

theorem acceptorPoll_past (env : Env) (values : ℕ → K) {self : AcceptorFuture F H T ℕ S}
    (h : (acceptorPattern inner view).past self) :
    ∃ r, (∀ values, AcceptorFuture.turn (b.shared view) (inner.over Prod.fst .inl)
        (env, values) self = .stop r) ∧
      (∃ evs : List ε, r.did = evs.map .inl) ∧ (acceptorPattern inner view).past r.state := by
  obtain ⟨⟨future, d⟩ | ⟨future, service⟩, config⟩ := self
  · obtain ⟨future, service, h⟩ := h
    cases h
  · obtain ⟨r, hr, hdid, hstate⟩ := AcceptorFuture.turnAccept_stop (b.shared view) (F := F) config
      service (timeout (b.shared view).handshake (b.shared view).delay (env, values) future)
    refine ⟨r, fun _ => hr, ⟨(timeout b.handshake b.delay env future).did, ?_⟩, hstate⟩
    rw [hdid]
    simp only [Backend.shared, timeout_over]
    rfl

theorem mentions_of_inl (evs : List ε) (config : Cfg) :
    ∀ e ∈ evs.map (Sum.inl : ε → ε ⊕ TlsEvent Cfg I), ∀ cfg,
      (acceptorPattern (H := H) (T := T) inner view).mentions e = some cfg → cfg = config := by
  intro e he cfg hcfg
  rw [mentions_inl view inner e he] at hcfg
  cases hcfg

theorem completes_new {env : Env} {future : F} {config : ℕ} {d : Duration} :
    (acceptorPattern (H := H) (T := T) inner view).completes env (.new future config d) = true ↔
      ∃ accepted, (inner env future).verdict = .ready (.ok accepted) := by
  simp only [acceptorPattern, AcceptorFuture.new]
  cases (inner env future).verdict with
  | ready accepted => cases accepted <;> simp
  | pending => simp
  | halted why => simp

theorem acceptorPoll_waits {env : Env} {future : F} (config : ℕ) (d : Duration)
    (h : ¬ ∃ accepted, (inner env future).verdict = .ready (.ok accepted)) :
    ∃ r, (∀ values, acceptorPoll b view inner more (env, values) (.new future config d) = r) ∧
      (∃ evs : List ε, r.did = evs.map .inl) ∧
      (acceptorPattern inner view).waits config r.state := by
  -- The acceptor below does not see the cells.
  obtain ⟨r, hr, hdid, hstate⟩ := AcceptorFuture.turnInner_of_not_ready (H := H) (T := T)
    (r := inner.over Prod.fst .inl (env, fun _ : ℕ => ()) future) (b.shared view) (some config) d
    (not_exists.mp h)
  refine ⟨r, fun values => loop_two_stop (hr (env, values)) more, ⟨_, hdid⟩, ?_⟩
  rw [hstate]
  exact ⟨_, d, rfl⟩

theorem acceptorPoll_reads {env : Env} {future : F} (values : ℕ → K) (config : ℕ) (d : Duration)
    {stream : I} {service : S} (h : (inner env future).verdict = .ready (.ok (stream, service))) :
    ∃ r, (∀ values', values' config = values config →
        acceptorPoll b view inner more (env, values') (.new future config d) = r) ∧
      (r.verdict = .pending → (acceptorPattern inner view).past r.state) ∧
      ∀ e ∈ r.did, ∀ cfg, (acceptorPattern (H := H) (T := T) inner view).mentions e = some cfg →
        cfg = view (values config) := by
  have hsame : ∀ values', values' config = values config →
      AcceptorFuture.turn (b.shared view) (inner.over Prod.fst .inl) (env, values')
        (.new future config d) =
      AcceptorFuture.turn (b.shared view) (inner.over Prod.fst .inl) (env, values)
        (.new future config d) := by
    intro values' hv
    simp only [AcceptorFuture.turn, AcceptorFuture.new, AcceptorFuture.turnInner, PollFn.over, h,
      Backend.shared, hv]
  have hread : ∀ e ∈ [Sum.inr (.getInner (view (values config)))], ∀ cfg,
      (acceptorPattern (ε := ε) (H := H) (T := T) inner view).mentions e = some cfg →
        cfg = view (values config) := by
    simp [acceptorPattern]
  rcases AcceptorFuture.turnInner_of_ready (b.shared view) (env, values) config d
    (r := inner.over Prod.fst .inl (env, values) future) h with
    ⟨message, left, hstop⟩ | ⟨tls, hagain⟩
  · refine ⟨_, fun values' hv => loop_two_stop ((hsame values' hv).trans hstop) more,
      fun hv => (by cases hv), ?_⟩
    exact List.forall_mem_append.mpr ⟨mentions_of_inl view inner _ _, hread⟩
  · have hpast : (acceptorPattern inner view).past
        (.accepting service none (tls, (b.shared view).sleep (env, values) d)) := ⟨_, _, rfl⟩
    obtain ⟨r, hr, ⟨evs, hdid⟩, hstate⟩ := acceptorPoll_past b view inner env values hpast
    refine ⟨_, fun values' hv => loop_two_again ((hsame values' hv).trans hagain) (hr values') more,
      fun _ => hstate, ?_⟩
    have hstarted : ∀ e ∈ [Sum.inr (.handshake (view (values config)) stream),
        Sum.inr (.timeout d)], ∀ cfg,
        (acceptorPattern (ε := ε) (H := H) (T := T) inner view).mentions e = some cfg →
          cfg = view (values config) := by
      simp [acceptorPattern]
    rw [Answer.after, hdid]
    refine List.forall_mem_append.mpr ⟨?_, mentions_of_inl view inner _ _⟩
    refine List.forall_mem_append.mpr ⟨?_, hstarted⟩
    exact List.forall_mem_append.mpr ⟨mentions_of_inl view inner _ _, hread⟩

/-- An acceptor future reads its configuration in one poll. -/
theorem acceptorPattern_readsOnce :
    (acceptorPattern inner view).ReadsOnce (acceptorPoll b view inner more) where
  before := by
    rintro config ⟨env, values⟩ _ ⟨future, d, rfl⟩ hc
    have hnot : ¬ ∃ accepted, (inner env future).verdict = .ready (.ok accepted) := by
      rw [← completes_new view inner, hc]
      exact Bool.false_ne_true
    obtain ⟨r, hpoll, ⟨evs, hdid⟩, hwaits⟩ := acceptorPoll_waits b view inner more config d hnot
    refine ⟨fun value => (hpoll values).trans (hpoll _).symm, fun _ => ?_, ?_⟩
    · rw [hpoll]
      exact hwaits
    · rw [hpoll, hdid]
      exact mentions_inl view inner
  reading := by
    rintro config ⟨env, values⟩ _ ⟨future, d, rfl⟩ hc
    obtain ⟨⟨stream, service⟩, hready⟩ := (completes_new view inner).mp hc
    obtain ⟨r, hpoll, hpast, hmentions⟩ :=
      acceptorPoll_reads b view inner more values config d hready
    rw [frozen, hpoll values rfl]
    exact ⟨(hpoll (fun _ => values config) rfl).symm, hpast, hmentions⟩
  after := by
    rintro ⟨env, values⟩ self hpast
    obtain ⟨r, hr, ⟨evs, hdid⟩, hstate⟩ := acceptorPoll_past b view inner env values hpast
    have hpoll : ∀ values, acceptorPoll b view inner more (env, values) self = r :=
      fun values => loop_two_stop (hr values) more
    refine ⟨?_, fun value => (hpoll values).trans (hpoll _).symm, fun _ => ?_, ?_⟩
    · obtain ⟨future, service, h⟩ := hpast
      simp only [acceptorPattern, h]
    · rw [hpoll]
      exact hstate
    · rw [hpoll, hdid]
      exact mentions_inl view inner

def acceptors (accepts : List (F × ℕ × Duration)) : List (ℕ × AcceptorFuture F H T ℕ S) :=
  accepts.map fun (future, config, handshakeTimeout) =>
    (config, .new future config handshakeTimeout)

theorem acceptors_wait (accepts : List (F × ℕ × Duration)) :
    ∀ reader ∈ (acceptors accepts : List (ℕ × AcceptorFuture F H T ℕ S)),
      (acceptorPattern inner view).waits reader.1 reader.2 := by
  intro reader hreader
  obtain ⟨⟨future, config, d⟩, -, rfl⟩ := List.mem_map.mp hreader
  exact ⟨future, d, rfl⟩

end Acceptors

/-- Reloads are atomic with respect to handshakes, on both backends: taken step by step they
are the reloads of the source, and in every order of their steps and of the polls each of
them stores once what the constructor of its name builds, or fails and stores nothing, and
each handshake has one configuration. -/
theorem hotReload_atomic {Env ε C I T S F E O Path : Type} :
    (∀ {E' P R K N V H X : Type} (lib : TlsRustls.Library Path E' P R K N V) (turns : ℕ),
      (∀ (self : TlsRustls.RustlsConfig V) (reload : TlsRustls.Reload Path V),
        reload.run lib turns self = (reload.plan lib turns).run self) ∧
      ∀ (rt : TlsRustls.Runtime Env ε C V I H X T E O) (inner : PollFn Env ε F (Accepted E O I S))
        (more : ℕ) (configs : ℕ → TlsRustls.RustlsConfig V)
        (reloads : List (ℕ × TlsRustls.Reload Path V)) (accepts : List (F × ℕ × Duration))
        (as : List (CellsAction Env)) (s : Cells Env _ (AcceptorFuture F H T ℕ S) _ _ _ _),
        Exec (Cells.step (acceptorPoll rt.backend TlsRustls.RustlsConfig.getInner inner more))
          Always
          (Cells.init configs (TlsRustls.Reload.plan lib turns) reloads
            ((acceptors accepts).map Prod.snd)) as s →
        Atomic (acceptorPattern inner TlsRustls.RustlsConfig.getInner)
          (acceptorPoll rt.backend TlsRustls.RustlsConfig.getInner inner more)
          (TlsRustls.Reload.constructor lib turns) configs reloads (acceptors accepts) s) ∧
    (∀ {ErrorStack X509 PKey D A L X : Type}
      (lib : TlsOpenssl.Library Path ErrorStack X509 PKey D A),
      (∀ (self : TlsOpenssl.OpenSSLConfig A) (reload : TlsOpenssl.Reload Path A),
        some (reload.run lib self) = (reload.plan lib).run self) ∧
      ∀ (rt : TlsOpenssl.Runtime Env ε C A I L X T O ErrorStack X509)
        (inner : PollFn Env ε F (Accepted E O I S)) (more : ℕ)
        (configs : ℕ → TlsOpenssl.OpenSSLConfig A) (reloads : List (ℕ × TlsOpenssl.Reload Path A))
        (accepts : List (F × ℕ × Duration)) (as : List (CellsAction Env))
        (s : Cells Env _ (AcceptorFuture F (TlsOpenssl.TlsAccept X) T ℕ S) _ _ _ _),
        Exec (Cells.step (acceptorPoll rt.backend TlsOpenssl.OpenSSLConfig.getInner inner more))
          Always
          (Cells.init configs (TlsOpenssl.Reload.plan lib) reloads
            ((acceptors accepts).map Prod.snd)) as s →
        Atomic (acceptorPattern inner TlsOpenssl.OpenSSLConfig.getInner)
          (acceptorPoll rt.backend TlsOpenssl.OpenSSLConfig.getInner inner more)
          (fun reload => returned (reload.constructor lib)) configs reloads (acceptors accepts)
          s) := by
  constructor
  · intro E' P R K N V H X lib turns
    refine ⟨TlsRustls.Reload.run_eq_plan lib turns, ?_⟩
    intro rt inner more configs reloads accepts as s h
    exact atomic_of_exec (acceptorPattern_readsOnce rt.backend _ inner more)
      (TlsRustls.Reload.commits_plan lib turns) (acceptors_wait _ inner accepts) h
  · intro ErrorStack X509 PKey D A L X lib
    refine ⟨TlsOpenssl.Reload.run_eq_plan lib, ?_⟩
    intro rt inner more configs reloads accepts as s h
    exact atomic_of_exec (acceptorPattern_readsOnce rt.backend _ inner more)
      (TlsOpenssl.Reload.commits_plan lib) (acceptors_wait _ inner accepts) h

section Demo

def demoInner : PollFn Bool Unit Unit (Accepted Unit Unit Unit Unit) :=
  fun _ _ => ⟨.ready (.ok ((), ())), (), []⟩

/-- A handshake that is done when the client has answered, under a timer that never ends. -/
def demoRustlsRuntime : TlsRustls.Runtime Bool Unit Unit
    (TlsRustls.ClientHello → Option (TlsRustls.CertifiedKey Bytes)) Unit Unit Unit Unit Unit
    Unit where
  cell _ _ := ⟨⟨fun _ => none, []⟩⟩
  accept _ _ := ()
  pollAccept answered _ := ⟨if answered then .ready (.ok ()) else .pending, (), []⟩
  connection _ := rustlsClient []
  sleep _ _ := ()
  pollSleep _ _ := ⟨.pending, (), []⟩
  emit _ := ()

def demoOpensslRuntime : TlsOpenssl.Runtime Bool Unit Unit (Bytes × Bytes) Unit Unit Unit Unit
    Unit Unit Bytes where
  cell _ _ := ⟨([], [])⟩
  sslNew _ := .ok ()
  streamNew _ _ := .ok ()
  pollAccept answered _ := ⟨if answered then .ready (.ok ()) else .pending, (), []⟩
  ssl _ := opensslClient []
  toDer := .ok
  debug _ := "error stack"
  sleep _ _ := ()
  pollSleep _ _ := ⟨.pending, (), []⟩
  emit _ := ()

/-- A handshake begins, a reload stores, another fails, the handshake ends. -/
def demoSchedule : List (CellsAction Bool) :=
  .poll 0 false :: List.replicate 3 (.write 0) ++ List.replicate 2 (.write 1) ++ [.poll 0 true]

abbrev demoRustlsPoll := acceptorPoll (T := Unit) demoRustlsRuntime.backend
  TlsRustls.RustlsConfig.getInner demoInner 0

abbrev demoOpensslPoll := acceptorPoll (T := Unit) demoOpensslRuntime.backend
  TlsOpenssl.OpenSSLConfig.getInner demoInner 0

theorem hotReload_atomic_demo :
    (∃ s, Exec (Cells.step demoRustlsPoll) Always
        (Cells.init (fun _ => ⟨⟨fun _ => none, []⟩⟩) (TlsRustls.Reload.plan demoRustls 2)
          [(0, .fromDer [[1]] [1]), (0, .fromDer [[1]] [2])]
          ((acceptors [((), 0, 10)]).map Prod.snd)) demoSchedule s ∧
      Atomic (acceptorPattern demoInner TlsRustls.RustlsConfig.getInner) demoRustlsPoll
        (TlsRustls.Reload.constructor demoRustls 2) (fun _ => ⟨⟨fun _ => none, []⟩⟩)
        [(0, .fromDer [[1]] [1]), (0, .fromDer [[1]] [2])] (acceptors [((), 0, 10)]) s) ∧
    ∃ s, Exec (Cells.step demoOpensslPoll) Always
        (Cells.init (fun _ => ⟨([], [])⟩) (TlsOpenssl.Reload.plan demoOpenssl)
          [(0, .fromDer [1] [1]), (0, .fromDer [1] [2])]
          ((acceptors [((), 0, 10)]).map Prod.snd)) demoSchedule s ∧
      Atomic (acceptorPattern demoInner TlsOpenssl.OpenSSLConfig.getInner) demoOpensslPoll
        (fun reload => returned (reload.constructor demoOpenssl)) (fun _ => ⟨([], [])⟩)
        [(0, .fromDer [1] [1]), (0, .fromDer [1] [2])] (acceptors [((), 0, 10)]) s := by
  constructor
  · obtain ⟨s, hs⟩ : ∃ s, Exec (Cells.step demoRustlsPoll) Always
        (Cells.init (fun _ => ⟨⟨fun _ => none, []⟩⟩) (TlsRustls.Reload.plan demoRustls 2)
          [(0, .fromDer [[1]] [1]), (0, .fromDer [[1]] [2])]
          ((acceptors [((), 0, 10)]).map Prod.snd)) demoSchedule s :=
      ⟨_, .cons trivial rfl (.cons trivial rfl (.cons trivial rfl (.cons trivial rfl
        (.cons trivial rfl (.cons trivial rfl (.cons trivial rfl (.nil _)))))))⟩
    exact ⟨s, hs, (hotReload_atomic.1 _ _).2 demoRustlsRuntime _ _ _ _ _ _ _ hs⟩
  · obtain ⟨s, hs⟩ : ∃ s, Exec (Cells.step demoOpensslPoll) Always
        (Cells.init (fun _ => ⟨([], [])⟩) (TlsOpenssl.Reload.plan demoOpenssl)
          [(0, .fromDer [1] [1]), (0, .fromDer [1] [2])]
          ((acceptors [((), 0, 10)]).map Prod.snd)) demoSchedule s :=
      ⟨_, .cons trivial rfl (.cons trivial rfl (.cons trivial rfl (.cons trivial rfl
        (.cons trivial rfl (.cons trivial rfl (.cons trivial rfl (.nil _)))))))⟩
    exact ⟨s, hs, (hotReload_atomic.2 _).2 demoOpensslRuntime _ _ _ _ _ _ _ hs⟩

end Demo

end AxumServer
